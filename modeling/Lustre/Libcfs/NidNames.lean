/-
Module: Lustre.Libcfs.NidNames
Purpose: What a text of a network identifier names, and when `libcfs_str2nid` returns just that.
Trusted boundary: none
-/
import Lustre.Libcfs.NidString

namespace Libcfs

open Scan List Option

/-! ### The fields of an identifier -/

/-- A number in front of lower bits. -/
theorem toNat_shiftLeft_or {x y : UInt32} {i : Nat} (j : UInt32) (same : j.toNat = i)
    (word : i < 32) (small : x.toNat * 2 ^ i < 2 ^ 32) (low : y.toNat < 2 ^ i) :
    (x <<< j ||| y).toNat = x.toNat * 2 ^ i + y.toNat := by
  rw [UInt32.toNat_or, UInt32.toNat_shiftLeft, same, Nat.mod_eq_of_lt word, Nat.shiftLeft_eq,
    Nat.mod_eq_of_lt small, ← Nat.shiftLeft_eq, ← Nat.shiftLeft_add_eq_or_of_lt low]

theorem toNat_lnetMknid (net addr : UInt32) :
    (lnetMknid net addr).toNat = net.toNat * 2 ^ 32 + addr.toNat := by
  have small := addr.toNat_lt
  have high := net.toNat_lt
  unfold lnetMknid
  rw [UInt64.toNat_or, UInt64.toNat_shiftLeft, UInt32.toNat_toUInt64, UInt32.toNat_toUInt64]
  have fits : net.toNat <<< ((32 : UInt64).toNat % 64) % 2 ^ 64 = net.toNat <<< 32 := by
    rw [show ((32 : UInt64).toNat % 64) = 32 from rfl, Nat.shiftLeft_eq]
    omega
  rw [fits, ← Nat.shiftLeft_add_eq_or_of_lt small, Nat.shiftLeft_eq]

theorem toNat_lnetNidaddr (nid : UInt64) : (lnetNidaddr nid).toNat = nid.toNat % 2 ^ 32 := by
  have low : (nid &&& 0xffffffff).toNat = nid.toNat % 2 ^ 32 :=
    Nat.and_two_pow_sub_one_eq_mod nid.toNat 32
  rw [lnetNidaddr, UInt64.toNat_toUInt32, low, Nat.mod_mod]

theorem lnetNidaddr_lnetMknid (net addr : UInt32) : lnetNidaddr (lnetMknid net addr) = addr := by
  have word := addr.toNat_lt
  rw [← UInt32.toNat_inj, toNat_lnetNidaddr, toNat_lnetMknid]
  omega

theorem toNat_lnetNidnet (nid : UInt64) : (lnetNidnet nid).toNat = nid.toNat / 2 ^ 32 := by
  have bound := nid.toNat_lt
  have high : (nid >>> 32).toNat = nid.toNat / 2 ^ 32 := Nat.shiftRight_eq_div_pow nid.toNat 32
  have low : (lnetNidnet nid).toNat = (nid >>> 32).toUInt32.toNat % 2 ^ 32 :=
    Nat.and_two_pow_sub_one_eq_mod _ 32
  rw [low, UInt64.toNat_toUInt32, high]
  omega

theorem toNat_lnetNetnum (net : UInt32) : (lnetNetnum net).toNat = net.toNat % 2 ^ 16 :=
  Nat.and_two_pow_sub_one_eq_mod net.toNat 16

theorem toNat_lnetNettyp (net : UInt32) : (lnetNettyp net).toNat = net.toNat / 2 ^ 16 := by
  have bound := net.toNat_lt
  have high : (net >>> 16).toNat = net.toNat / 2 ^ 16 := Nat.shiftRight_eq_div_pow net.toNat 16
  have low : (lnetNettyp net).toNat = (net >>> 16).toNat % 2 ^ 16 :=
    Nat.and_two_pow_sub_one_eq_mod _ 16
  omega

theorem split_byte (a : UInt32) : a = (a &&& 0xff) ||| (a &&& ~~~0xff) := by
  have ones : (0xff ||| ~~~0xff : UInt32).toBitVec = BitVec.allOnes 32 := rfl
  rw [← UInt32.toBitVec_inj, UInt32.toBitVec_or, UInt32.toBitVec_and, UInt32.toBitVec_and,
    ← BitVec.and_or_distrib_left, ← UInt32.toBitVec_or, ones]
  exact BitVec.and_allOnes.symm

theorem toNat_and_byte (x : UInt32) : (x &&& 0xff).toNat = x.toNat % 256 :=
  Nat.and_two_pow_sub_one_eq_mod x.toNat 8

variable {a : UInt32}

theorem and_not_byte : a &&& ~~~0xff = 0 ↔ a.toNat < 256 := by
  have byte := toNat_and_byte a
  constructor
  · intro none
    have whole := split_byte a
    rw [none, UInt32.or_zero] at whole
    have same := congrArg UInt32.toNat whole
    omega
  · intro small
    have same : a = a &&& 0xff := by
      rw [← UInt32.toNat_inj, byte, Nat.mod_eq_of_lt small]
    rw [same, UInt32.and_assoc, show (0xff &&& ~~~0xff : UInt32) = 0 by decide, UInt32.and_zero]

theorem toNat_quad {b c d : UInt32} (ha : a.toNat < 256) (hb : b.toNat < 256) (hc : c.toNat < 256)
    (hd : d.toNat < 256) : ((a <<< 24) ||| (b <<< 16) ||| (c <<< 8) ||| d).toNat =
      a.toNat * 2 ^ 24 + b.toNat * 2 ^ 16 + c.toNat * 2 ^ 8 + d.toNat := by
  have two : (c <<< 8 ||| d).toNat = c.toNat * 2 ^ 8 + d.toNat :=
    toNat_shiftLeft_or 8 rfl (by omega) (by omega) hd
  have three : (b <<< 16 ||| (c <<< 8 ||| d)).toNat = b.toNat * 2 ^ 16 + (c <<< 8 ||| d).toNat :=
    toNat_shiftLeft_or 16 rfl (by omega) (by omega) (by omega)
  rw [UInt32.or_assoc, UInt32.or_assoc,
    @toNat_shiftLeft_or _ _ 24 24 rfl (by omega) (by omega) (by omega)]
  omega

/-! ### What a text names -/

/-- An address as it is written: one number, or four. -/
inductive Address where
  | number (v : Int)
  | quad (a b c d : Int)
deriving DecidableEq, Repr

/-- A network type, a network number and an address, as they are written. -/
structure Named where
  lnd : Lnd
  number : Int
  address : Address
deriving DecidableEq, Repr

/-- The network types with dotted addresses. -/
def Lnd.dotted : Lnd → Bool
  | lo | elan | gm | ptl => false
  | tcp | o2ib | cib | openib | iib | vib | ra | mx => true

/-- A text that writes a number, decimal or behind `0x` hexadecimal. -/
inductive NumberText : List Char → Int → Prop where
  | dec {text : List Char} {v : Int} : Numeral 10 text v → NumberText text v
  | hex {text : List Char} {v : Int} : Numeral 16 text v → NumberText ('0' :: 'x' :: text) v
  | upper {text : List Char} {v : Int} : Numeral 16 text v → NumberText ('0' :: 'X' :: text) v

/-- The address that a text writes on a network type. -/
inductive AddrNames (lib : CLib) (lnd : Lnd) : List Char → Address → Prop where
  | number {text : List Char} {v : Int} : lnd.dotted = false → NumberText text v →
      AddrNames lib lnd text (.number v)
  | quad {ta tb tc td : List Char} {a b c d : Int} : lnd.dotted = true → Numeral 10 ta a →
      Numeral 10 tb b → Numeral 10 tc c → Numeral 10 td d →
      AddrNames lib lnd (ta ++ '.' :: (tb ++ '.' :: (tc ++ '.' :: td))) (.quad a b c d)
  | host {c : Char} {text : List Char} {addr : UInt32} : lnd.dotted = true →
      ('a' ≤ c ∧ c ≤ 'z' ∨ 'A' ≤ c ∧ c ≤ 'Z') → lib.gethostbyname (c :: text) = some addr →
      AddrNames lib lnd (c :: text) (.number addr.toNat)

/-- The network that a text writes; `lo` has no number. -/
inductive NetNames : List Char → Lnd → Int → Prop where
  | plain (lnd : Lnd) : NetNames lnd.nfName lnd 0
  | numbered {lnd : Lnd} {text : List Char} {v : Int} : lnd ≠ .lo → Numeral 10 text v →
      NetNames (lnd.nfName ++ text) lnd v

/-- What a text names: an address on a network, or on `tcp` if it has no network. -/
inductive Names (lib : CLib) : List Char → Named → Prop where
  | onNet {text net : List Char} {lnd : Lnd} {v : Int} {address : Address} : '@' ∉ text →
      NetNames net lnd v → AddrNames lib lnd text address →
      Names lib (text ++ '@' :: net) ⟨lnd, v, address⟩
  | onTcp {text : List Char} {address : Address} : '@' ∉ text → AddrNames lib .tcp text address →
      Names lib text ⟨.tcp, 0, address⟩

/-- The numbers of an address fit. -/
def Address.Fits : Address → Prop
  | .number v => 0 ≤ v ∧ v < 2 ^ 32
  | .quad a b c d => (0 ≤ a ∧ a < 256) ∧ (0 ≤ b ∧ b < 256) ∧ (0 ≤ c ∧ c < 256) ∧ (0 ≤ d ∧ d < 256)

/-- The numbers of a text fit their fields: 16 bits for the network, 32 bits or four bytes for the
address; and `lo` has the address zero only. -/
structure Named.Fits (named : Named) : Prop where
  number : 0 ≤ named.number ∧ named.number < 2 ^ 16
  address : named.address.Fits
  lo : named.lnd = .lo → named.address = .number 0

/-- An address that is exactly the one written. -/
def Address.Exact : Address → UInt32 → Prop
  | .number v, addr => (addr.toNat : Int) = v
  | .quad a b c d, addr => Address.Fits (.quad a b c d) ∧
      (addr.toNat : Int) = a * 2 ^ 24 + b * 2 ^ 16 + c * 2 ^ 8 + d

/-- An identifier with exactly the type, the number and the address that are named. -/
structure Named.Exact (named : Named) (nid : UInt64) : Prop where
  typ : lnetNettyp (lnetNidnet nid) = named.lnd.nfType
  number : ((lnetNetnum (lnetNidnet nid)).toNat : Int) = named.number
  address : named.address.Exact (lnetNidaddr nid)

variable {text rest str other : List Char} {lnd : Lnd} {v : Int} {addr : UInt32} {base : Nat}
  {c : Char} {named : Named}

section

variable {lib : CLib}

/-! ### Scans of what is written -/

theorem CLib.scan_numeral (numeral : Numeral base text v) (stop : Stops base rest) :
    lib.scan base (text ++ rest) = some (lib.store v, rest) := by
  rw [CLib.scan, scanNumber_numeral numeral stop]

theorem CLib.scan_some {n : UInt32} (scanned : lib.scan base text = some (n, rest)) :
    ∃ front v, text = front ++ rest ∧ Numeral base front v ∧ n = lib.store v := by
  unfold CLib.scan at scanned
  split at scanned
  · rename_i v behind found
    cases scanned
    obtain ⟨front, same, numeral, _⟩ := numeral_of_scanNumber found
    exact ⟨front, v, same, numeral, rfl⟩
  · cases scanned

theorem literal_cons (c : Char) (text : List Char) : literal c (c :: text) = some text := if_pos rfl

theorem literal_some (found : literal c text = some rest) : text = c :: rest := by
  unfold literal at found
  split at found
  · cases found
  · split at found
    · rename_i same
      cases found
      rw [same]
    · cases found

theorem stops_dot (rest : List Char) : Stops 10 ('.' :: rest) := stops_cons rfl (by decide) rest

/-- What stands behind an address: nothing, or a network. -/
def EndsAddr (rest : List Char) : Prop := rest = [] ∨ ∃ net, rest = '@' :: net

theorem EndsAddr.stops (ends : EndsAddr rest) (hex : base = 10 ∨ base = 16) : Stops base rest := by
  rcases ends with rfl | ⟨net, rfl⟩
  · exact stops_nil base
  · rcases hex with rfl | rfl <;> exact stops_cons rfl (by decide) net

theorem scanQuad_numerals {ta tb tc td : List Char} {a b c d : Int} (ha : Numeral 10 ta a)
    (hb : Numeral 10 tb b) (hc : Numeral 10 tc c) (hd : Numeral 10 td d) (ends : EndsAddr rest) :
    scanQuad lib (ta ++ '.' :: (tb ++ '.' :: (tc ++ '.' :: (td ++ rest)))) =
      some (lib.store a, lib.store b, lib.store c, lib.store d, rest) := by
  unfold scanQuad
  simp only [CLib.scan_numeral ha (stops_dot _), CLib.scan_numeral hb (stops_dot _),
    CLib.scan_numeral hc (stops_dot _), CLib.scan_numeral hd (ends.stops (.inl rfl)), literal_cons, bind_eq_bind, bind_some]

theorem scanQuad_some {b c d : UInt32} (scanned : scanQuad lib str = some (a, b, c, d, rest)) :
    ∃ ta tb tc td va vb vc vd, str = ta ++ '.' :: (tb ++ '.' :: (tc ++ '.' :: (td ++ rest))) ∧
      Numeral 10 ta va ∧ Numeral 10 tb vb ∧ Numeral 10 tc vc ∧ Numeral 10 td vd ∧
      a = lib.store va ∧ b = lib.store vb ∧ c = lib.store vc ∧ d = lib.store vd := by
  simp only [scanQuad, bind_eq_bind, bind_eq_some_iff, Option.some.injEq, Prod.mk.injEq,
    Prod.exists] at scanned
  obtain ⟨_, r1, s1, r2, l1, _, r3, s2, r4, l2, _, r5, s3, r6, l3, _, r7, s4, rfl, rfl, rfl, rfl, rfl⟩ :=
    scanned
  obtain ⟨ta, va, rfl, na, rfl⟩ := CLib.scan_some s1
  obtain rfl := literal_some l1
  obtain ⟨tb, vb, rfl, nb, rfl⟩ := CLib.scan_some s2
  obtain rfl := literal_some l2
  obtain ⟨tc, vc, rfl, nc, rfl⟩ := CLib.scan_some s3
  obtain rfl := literal_some l3
  obtain ⟨td, vd, rfl, nd, rfl⟩ := CLib.scan_some s4
  exact ⟨ta, tb, tc, td, va, vb, vc, vd, rfl, na, nb, nc, nd, rfl, rfl, rfl, rfl⟩

/-! ### Addresses -/

/-- Letters, as `libcfs_ip_str2addr` tests for them. -/
abbrev Letter (c : Char) : Prop := 'a' ≤ c ∧ c ≤ 'z' ∨ 'A' ≤ c ∧ c ≤ 'Z'

theorem Letter.code (letter : Letter c) : 65 ≤ c.toNat := by
  rcases letter with ⟨low, _⟩ | ⟨low, _⟩
  · exact le_trans (by decide) (UInt32.le_iff_toNat_le.mp low)
  · exact UInt32.le_iff_toNat_le.mp low

/-- A letter starts no number. -/
theorem Letter.scanNumber (letter : Letter c) (text : List Char) :
    scanNumber 10 (c :: text) = none := by
  have code := letter.code
  have noSpace : isSpace c = false := by
    simp only [isSpace, decide_eq_false_iff_not]
    rintro (rfl | rfl | rfl | rfl | rfl | rfl) <;> revert letter <;> decide
  have noSign : ∀ d tail, c :: text = d :: tail → d ≠ '-' ∧ d ≠ '+' := by
    rintro _ _ ⟨⟩
    constructor
    · rintro rfl
      revert letter
      decide
    · rintro rfl
      revert letter
      decide
  have noDigit : isDigit 10 c = false := by
    unfold isDigit digit?
    split_ifs <;> first | rfl | omega
  rw [Scan.scanNumber, dropWhile_cons_of_neg (by simp [noSpace]), sign_plain noSign]
  dsimp only
  rw [scan, if_pos]
  exact takeWhile_cons_of_neg (by simp [noDigit])

theorem numeral_ne_nil (numeral : Numeral base text v) : text ≠ [] := by
  obtain ⟨space, mark, tag, digits, _, rfl, _, _, _, some, _⟩ := numeral.shape
  simp [some]

theorem Letter.not_numeral {tail : List Char} (letter : Letter c) (numeral : Numeral 10 text v)
    (same : c :: tail = text ++ rest) : False := by
  have scanned := scanNumber_numeral numeral (stops_nil 10)
  rw [append_nil] at scanned
  cases text with
  | nil => exact numeral_ne_nil numeral rfl
  | cons d text =>
    cases (cons.inj same).1
    rw [Letter.scanNumber letter] at scanned
    cases scanned

theorem hostAddr_numeral (numeral : Numeral 10 text v) (nob : Nat) :
    hostAddr lib (text ++ rest) nob = none := by
  unfold hostAddr
  split
  · rfl
  · rename_i c tail same
    exact if_neg fun letter => Letter.not_numeral letter numeral same.symm

theorem scanQuad_letter (letter : Letter c) (text : List Char) :
    scanQuad lib (c :: text) = none := by
  unfold scanQuad
  rw [CLib.scan, Letter.scanNumber letter]
  rfl

/-- What stands behind `text` in `text ++ rest` was not read. -/
theorem length_sub_rest (text rest : List Char) : (text ++ rest).length - rest.length = text.length := by
  rw [length_append]
  omega

/-- A decimal number does not start with `0x`. -/
theorem scanTagged_dec (numeral : Numeral 10 text v) (ends : EndsAddr rest) (x : Char)
    (tag : x = 'x' ∨ x = 'X') : scanTagged lib x (text ++ rest) = none := by
  have scanned := scanNumber_numeral numeral (ends.stops (.inl rfl))
  unfold scanTagged
  simp only [bind_eq_bind]
  cases zero : literal '0' (text ++ rest) with
  | none => rfl
  | some r1 =>
    rw [bind_some]
    cases cross : literal x r1 with
    | none => rfl
    | some r2 =>
      rw [literal_some zero, literal_some cross] at scanned
      have first : scanNumber 10 ('0' :: x :: r2) = some (0, x :: r2) := by
        rcases tag with rfl | rfl <;> rfl
      rw [first] at scanned
      cases scanned
      rcases ends with none | ⟨net, same⟩
      · cases none
      · cases same
        rcases tag with h | h <;> cases h

theorem scanTagged_hex (numeral : Numeral 16 text v) (ends : EndsAddr rest) (x : Char) :
    within ('0' :: x :: text ++ rest) ('0' :: x :: text).length
      (scanTagged lib x ('0' :: x :: text ++ rest)) = some (lib.store v) := by
  simp only [scanTagged, cons_append, literal_cons, bind_eq_bind, bind_some]
  rw [CLib.scan_numeral numeral (ends.stops (.inr rfl))]
  exact if_pos (length_sub_rest ('0' :: x :: text) rest)

theorem libcfsNumStr2addr_number (number : NumberText text v) (ends : EndsAddr rest) :
    libcfsNumStr2addr lib (text ++ rest) text.length = some (lib.store v) := by
  unfold libcfsNumStr2addr
  cases number with
  | dec numeral =>
    rw [scanTagged_dec numeral ends 'x' (.inl rfl), scanTagged_dec numeral ends 'X' (.inr rfl),
      CLib.scan_numeral numeral (ends.stops (.inl rfl))]
    exact if_pos (length_sub_rest text rest)
  | hex numeral => rw [scanTagged_hex numeral ends 'x']
  | @upper text _ numeral =>
    rw [show scanTagged lib 'x' ('0' :: 'X' :: text ++ rest) = none from rfl,
      scanTagged_hex numeral ends 'X']
    rfl

/-- The address that is stored for a written one. -/
def Address.stored (lib : CLib) (lnd : Lnd) : Address → Option UInt32
  | .number v => if lnd = .lo then some 0 else some (lib.store v)
  | .quad a b c d =>
    if lib.store a &&& ~~~0xff = 0 ∧ lib.store b &&& ~~~0xff = 0 ∧ lib.store c &&& ~~~0xff = 0 ∧
        lib.store d &&& ~~~0xff = 0 then
      some ((lib.store a <<< 24) ||| (lib.store b <<< 16) ||| (lib.store c <<< 8) ||| lib.store d)
    else none

theorem CLib.store_fits (fits : 0 ≤ v ∧ v < 2 ^ 32) : ((lib.store v).toNat : Int) = v := by
  rw [CLib.store, if_pos fits, UInt32.toNat_ofNat']
  omega

theorem CLib.store_toNat (n : UInt32) : lib.store n.toNat = n := by
  have bound := n.toNat_lt
  have same : ((lib.store n.toNat).toNat : Int) = n.toNat := store_fits (by omega)
  rw [← UInt32.toNat_inj]
  omega

theorem Lnd.nfStr2addr_dotted (dotted : lnd.dotted = true) :
    lnd.nfStr2addr lib = libcfsIpStr2addr lib := by
  cases lnd <;> first | rfl | cases dotted

theorem Lnd.nfStr2addr_number (plain : lnd.dotted = false) (ne : lnd ≠ .lo) :
    lnd.nfStr2addr lib = libcfsNumStr2addr lib := by
  cases lnd <;> first | rfl | exact absurd rfl ne | cases plain

/-- What `nf_str2addr` makes of a written address. -/
theorem nfStr2addr_named {address : Address} (written : AddrNames lib lnd text address)
    (ends : EndsAddr rest) :
    lnd.nfStr2addr lib (text ++ rest) text.length = address.stored lib lnd := by
  cases written with
  | number plain number =>
    rw [Address.stored]
    split
    · rename_i lo
      rw [lo]
      rfl
    · rename_i ne
      rw [Lnd.nfStr2addr_number plain ne]
      exact libcfsNumStr2addr_number number ends
  | @quad ta tb tc td a b c d dotted ha hb hc hd =>
    have split : ta ++ '.' :: (tb ++ '.' :: (tc ++ '.' :: td)) ++ rest =
        ta ++ '.' :: (tb ++ '.' :: (tc ++ '.' :: (td ++ rest))) := by simp
    have fits := length_sub_rest (ta ++ '.' :: (tb ++ '.' :: (tc ++ '.' :: td))) rest
    rw [Lnd.nfStr2addr_dotted dotted, libcfsIpStr2addr, Address.stored]
    rw [split] at fits ⊢
    rw [scanQuad_numerals ha hb hc hd ends]
    dsimp only
    rw [fits, hostAddr_numeral ha]
    simp only [true_and]
  | @host c text addr dotted letter known =>
    have ne : lnd ≠ .lo := by
      rintro rfl
      cases dotted
    rw [Lnd.nfStr2addr_dotted dotted, libcfsIpStr2addr, Address.stored, if_neg ne,
      CLib.store_toNat, cons_append, scanQuad_letter letter]
    rw [hostAddr, if_pos letter, ← known, ← cons_append, take_left]

/-- No name of the table starts another one. -/
theorem libcfsNamenum2netstrfns_name (lnd : Lnd) (text : List Char) :
    libcfsNamenum2netstrfns (lnd.nfName ++ text) = some lnd := by
  cases lnd <;> rfl

/-- What `libcfs_str2net_internal` makes of a written network. -/
theorem libcfsStr2netInternal_named (written : NetNames text lnd v) :
    libcfsStr2netInternal lib text = some (lnd, lnetMknet lnd.nfType (lib.store v)) := by
  have zero : lib.store 0 = 0 := rfl
  unfold libcfsStr2netInternal
  cases written with
  | plain =>
    have found := libcfsNamenum2netstrfns_name lnd []
    rw [append_nil] at found
    rw [found, zero]
    exact if_pos rfl
  | @numbered _ text _ ne numeral =>
    rw [libcfsNamenum2netstrfns_name]
    dsimp only
    have longer : (lnd.nfName ++ text).length ≠ lnd.nfName.length := by
      have some := length_pos_iff.mpr (numeral_ne_nil numeral)
      rw [length_append]
      omega
    have scanned : lib.scan 10 text = some (lib.store v, []) := by
      have read : lib.scan 10 (text ++ []) = some (lib.store v, []) :=
        CLib.scan_numeral numeral (stops_nil 10)
      rwa [append_nil] at read
    rw [if_neg longer, if_neg ne, drop_left, scanned]
    rfl

/-- The identifier that is made of what is named. -/
def Named.result (lib : CLib) (named : Named) : UInt64 :=
  match named.address.stored lib named.lnd with
  | none => lnetNidAny
  | some addr => lnetMknid (lnetMknet named.lnd.nfType (lib.store named.number)) addr

theorem splitAt_at (plain : '@' ∉ text) (net : List Char) :
    (text ++ '@' :: net).takeWhile (· ≠ '@') = text ∧
      (text ++ '@' :: net).dropWhile (· ≠ '@') = '@' :: net := by
  grind [takeWhile_append_stop]

theorem splitAt_unique {net net' : List Char} (plain : '@' ∉ text) (plain' : '@' ∉ other)
    (same : text ++ '@' :: net = other ++ '@' :: net') : text = other ∧ net = net' := by
  grind [splitAt_at]

/-- What `libcfs_str2nid` makes of a text. -/
theorem libcfsStr2nid_named (names : Names lib str named) :
    libcfsStr2nid lib str = named.result lib := by
  unfold libcfsStr2nid Named.result
  cases names with
  | @onNet text net lnd v address plain netNames addrNames =>
    obtain ⟨before, behind⟩ := splitAt_at plain net
    rw [before, behind]
    dsimp only
    rw [libcfsStr2netInternal_named netNames]
    dsimp only
    have read := nfStr2addr_named addrNames (.inr ⟨net, rfl⟩)
    unfold addrNid
    generalize lnd.nfStr2addr lib (text ++ '@' :: net) text.length = stored at read
    subst read
    cases address.stored lib lnd <;> rfl
  | @onTcp text address plain addrNames =>
    have other : ∀ c ∈ str, decide (c ≠ '@') = true := fun c mem =>
      decide_eq_true (ne_of_mem_of_not_mem mem plain)
    have read := nfStr2addr_named addrNames (.inl rfl)
    rw [append_nil] at read
    rw [takeWhile_eq_self_iff.mpr other, dropWhile_eq_nil_iff.mpr other]
    dsimp only
    rw [addrNid, read]
    rfl

/-- A scan that ends where the address ends has read the address. -/
theorem eq_of_length_sub {front behind : List Char} (same : text ++ rest = front ++ behind)
    (ends : (text ++ rest).length - behind.length = text.length) :
    front = text ∧ behind = rest := by
  have length : front.length = text.length := by
    rw [← ends, same, length_sub_rest]
  have parts := append_inj same length.symm
  exact ⟨parts.1.symm, parts.2.symm⟩

theorem within_some {scanned : Option (UInt32 × List Char)}
    (found : within (text ++ rest) text.length scanned = some addr) :
    ∃ behind, scanned = some (addr, behind) ∧
      (text ++ rest).length - behind.length = text.length := by
  unfold within at found
  split at found
  · grind
  · cases found

theorem scanTagged_some {x : Char}
    (read : within (text ++ rest) text.length (scanTagged lib x (text ++ rest)) = some addr) :
    ∃ front v, text = '0' :: x :: front ∧ Numeral 16 front v := by
  obtain ⟨behind, scanned, ends⟩ := within_some read
  obtain ⟨_, zero, tail⟩ := bind_eq_some_iff.mp scanned
  obtain ⟨_, cross, digits⟩ := bind_eq_some_iff.mp tail
  obtain ⟨front, v, rfl, numeral, _⟩ := CLib.scan_some digits
  have same : text ++ rest = '0' :: x :: front ++ behind := by
    rw [literal_some zero, literal_some cross]
    rfl
  exact ⟨front, v, (eq_of_length_sub same ends).1.symm, numeral⟩

theorem number_of_libcfsNumStr2addr
    (found : libcfsNumStr2addr lib (text ++ rest) text.length = some addr) :
    ∃ v, NumberText text v := by
  unfold libcfsNumStr2addr at found
  split at found
  · rename_i n read
    obtain ⟨front, v, rfl, numeral⟩ := scanTagged_some read
    exact ⟨v, .hex numeral⟩
  · split at found
    · rename_i n read
      obtain ⟨front, v, rfl, numeral⟩ := scanTagged_some read
      exact ⟨v, .upper numeral⟩
    · obtain ⟨behind, scanned, ends⟩ := within_some found
      obtain ⟨front, v, same, numeral, _⟩ := CLib.scan_some scanned
      obtain ⟨rfl, _⟩ := eq_of_length_sub same ends
      exact ⟨v, .dec numeral⟩

theorem host_of_hostAddr (dotted : lnd.dotted = true) (ends : EndsAddr rest)
    (found : hostAddr lib (text ++ rest) text.length = some addr) :
    ∃ address, AddrNames lib lnd text address := by
  unfold hostAddr at found
  split at found
  · cases found
  · rename_i c tail same
    split at found
    · rename_i letter
      rw [take_left] at found
      cases text with
      | nil =>
        rcases ends with rfl | ⟨net, rfl⟩
        · cases same
        · cases same
          exact absurd letter (by decide)
      | cons d text =>
        cases (cons.inj same).1
        exact ⟨_, .host dotted letter found⟩
    · cases found

theorem addr_of_nfStr2addr (ne : lnd ≠ .lo) (ends : EndsAddr rest)
    (found : lnd.nfStr2addr lib (text ++ rest) text.length = some addr) :
    ∃ address, AddrNames lib lnd text address := by
  cases dotted : lnd.dotted with
  | false =>
    rw [Lnd.nfStr2addr_number dotted ne] at found
    obtain ⟨v, number⟩ := number_of_libcfsNumStr2addr found
    exact ⟨_, .number dotted number⟩
  | true =>
    rw [Lnd.nfStr2addr_dotted dotted, libcfsIpStr2addr] at found
    split at found
    · rename_i a b c d behind scanned
      split at found
      · rename_i fits
        obtain ⟨ta, tb, tc, td, va, vb, vc, vd, same, na, nb, nc, nd, _⟩ := scanQuad_some scanned
        have split : text ++ rest = (ta ++ '.' :: (tb ++ '.' :: (tc ++ '.' :: td))) ++ behind := by
          rw [same]
          simp
        obtain ⟨rfl, _⟩ := eq_of_length_sub split fits.1
        exact ⟨_, .quad dotted na nb nc nd⟩
      · exact host_of_hostAddr dotted ends found
    · exact host_of_hostAddr dotted ends found

theorem net_of_libcfsStr2netInternal {net : UInt32}
    (found : libcfsStr2netInternal lib str = some (lnd, net)) : ∃ v, NetNames str lnd v := by
  unfold libcfsStr2netInternal at found
  split at found
  · cases found
  · rename_i nf named
    have start : nf.nfName <+: str := by
      have passed := find?_some named
      exact isPrefixOf_iff_prefix.mp passed
    obtain ⟨text, rfl⟩ := start
    split at found
    · rename_i length
      cases found
      have none : text = [] := by
        rw [length_append] at length
        exact length_eq_zero_iff.mp (by omega)
      rw [none, append_nil]
      exact ⟨0, .plain lnd⟩
    · split at found
      · cases found
      · rename_i ne
        rw [drop_left] at found
        split at found
        · cases found
        · rename_i netnum rest scanned
          split at found
          · cases found
          · rename_i whole
            cases found
            obtain ⟨front, v, rfl, numeral, _⟩ := CLib.scan_some scanned
            rw [not_not.mp whole, append_nil]
            exact ⟨v, .numbered ne numeral⟩

/-- An accepted text names an identifier, or is something on `lo`. -/
theorem names_of_libcfsStr2nid (accepted : libcfsStr2nid lib str ≠ lnetNidAny) :
    (∃ named, Names lib str named) ∨ ∃ text, str = text ++ '@' :: Lnd.lo.nfName := by
  have whole := (takeWhile_append_dropWhile (p := (· ≠ '@')) (l := str)).symm
  have plain : '@' ∉ str.takeWhile (· ≠ '@') := fun mem => by
    simpa using mem_takeWhile_imp mem
  unfold libcfsStr2nid at accepted
  generalize str.takeWhile (· ≠ '@') = text at whole plain accepted
  generalize behind : str.dropWhile (· ≠ '@') = rest at whole accepted
  subst whole
  cases rest with
  | nil =>
    dsimp only at accepted
    rw [addrNid] at accepted
    split at accepted
    · exact absurd rfl accepted
    · rename_i addr found
      have ne : Lnd.tcp ≠ .lo := nofun
      obtain ⟨address, names⟩ := addr_of_nfStr2addr ne (.inl rfl) found
      rw [append_nil]
      exact .inl ⟨_, .onTcp plain names⟩
  | cons c sep =>
    have sepChar : c = '@' := by simpa using dropWhile_stop _ c sep behind
    subst sepChar
    dsimp only at accepted
    split at accepted
    · exact absurd rfl accepted
    · rename_i nf net onNet
      rw [addrNid] at accepted
      split at accepted
      · exact absurd rfl accepted
      · rename_i addr found
        obtain ⟨v, netNames⟩ := net_of_libcfsStr2netInternal onNet
        by_cases lo : nf = .lo
        · subst lo
          cases netNames with
          | plain => exact .inr ⟨text, rfl⟩
          | numbered ne => exact absurd rfl ne
        · obtain ⟨address, names⟩ := addr_of_nfStr2addr lo (.inr ⟨sep, rfl⟩) found
          exact .inl ⟨_, .onNet plain netNames names⟩

/-- The address that is stored for one that fits. -/
theorem Address.stored_exact (lib : CLib) {address : Address} (fits : address.Fits)
    (lo : lnd = .lo → address = .number 0) :
    ∃ addr, address.stored lib lnd = some addr ∧ address.Exact addr := by
  cases address with
  | number v =>
    rw [Address.stored]
    split
    · rename_i isLo
      cases lo isLo
      exact ⟨0, rfl, rfl⟩
    · exact ⟨_, rfl, CLib.store_fits fits⟩
  | quad a b c d =>
    have byte {v : Int} (small : 0 ≤ v ∧ v < 256) :
        ((lib.store v).toNat : Int) = v ∧ (lib.store v).toNat < 256 := by
      have same : ((lib.store v).toNat : Int) = v := CLib.store_fits (by omega)
      exact ⟨same, by omega⟩
    have ⟨fa, fb, fc, fd⟩ := fits
    have ⟨va, la⟩ := byte fa
    have ⟨vb, lb⟩ := byte fb
    have ⟨vc, lc⟩ := byte fc
    have ⟨vd, ld⟩ := byte fd
    rw [Address.stored, if_pos ⟨and_not_byte.mpr la, and_not_byte.mpr lb, and_not_byte.mpr lc,
      and_not_byte.mpr ld⟩]
    refine ⟨_, rfl, fits, ?_⟩
    rw [toNat_quad la lb lc ld]
    push_cast
    rw [va, vb, vc, vd]

/-- What fits is stored exactly. -/
theorem Named.result_exact (lib : CLib) (fits : named.Fits) : named.Exact (named.result lib) := by
  obtain ⟨addr, stored, exact'⟩ := Address.stored_exact lib fits.address fits.lo
  have low : named.lnd.nfType.toNat ≤ 12 := by cases named.lnd <;> decide
  have bound := fits.number
  have number : ((lib.store named.number).toNat : Int) = named.number := CLib.store_fits (by omega)
  have net : (lnetMknet named.lnd.nfType (lib.store named.number)).toNat =
      named.lnd.nfType.toNat * 2 ^ 16 + (lib.store named.number).toNat :=
    toNat_shiftLeft_or 16 rfl (by omega) (by omega) (by omega)
  have word := addr.toNat_lt
  rw [Named.result, stored]
  refine ⟨?_, ?_, ?_⟩
  · rw [← UInt32.toNat_inj, toNat_lnetNettyp, toNat_lnetNidnet, toNat_lnetMknid, net]
    omega
  · rw [toNat_lnetNetnum, toNat_lnetNidnet, toNat_lnetMknid, net]
    omega
  · rw [lnetNidaddr_lnetMknid]
    exact exact'

theorem Named.fits_of_exact (names : Names lib str named) (exact' : named.Exact (named.result lib)) :
    named.Fits := by
  have number : 0 ≤ named.number ∧ named.number < 2 ^ 16 := by
    have small : (lnetNetnum (lnetNidnet (named.result lib))).toNat < 2 ^ 16 := by
      rw [toNat_lnetNetnum]
      omega
    have same := exact'.number
    omega
  have word := (lnetNidaddr (named.result lib)).toNat_lt
  have address := exact'.address
  refine ⟨number, ?_, fun lo => ?_⟩
  · cases written : named.address with
    | number v =>
      rw [written] at address
      have same : ((lnetNidaddr (named.result lib)).toNat : Int) = v := address
      exact ⟨by omega, by omega⟩
    | quad a b c d =>
      rw [written] at address
      exact address.1
  · have onLo : ∃ v, named.address = .number v := by
      cases names with
      | onNet _ _ addrNames =>
        cases lo
        cases addrNames with
        | number | host => exact ⟨_, rfl⟩
        | quad dotted => cases dotted
      | onTcp => cases lo
    obtain ⟨v, written⟩ := onLo
    have stored : named.address.stored lib named.lnd = some 0 := by
      rw [written, Address.stored, if_pos lo]
    rw [written, Named.result, stored] at address
    rw [lnetNidaddr_lnetMknid] at address
    have zero : 0 = v := address
    rw [written, zero]

theorem NumberText.unique {w : Int} (first : NumberText text v) (second : NumberText text w) :
    v = w := by
  have tagged {x : Char} {rest : List Char} {u : Int} (tag : x = 'x' ∨ x = 'X') :
      ¬ Numeral 10 ('0' :: x :: rest) u := by
    intro numeral
    have read := scanNumber_numeral numeral (stops_nil 10)
    rcases tag with rfl | rfl <;> cases read
  cases first with
  | dec numeral =>
    cases second with
    | dec other => exact numeral.unique other
    | hex => exact absurd numeral (tagged (.inl rfl))
    | upper => exact absurd numeral (tagged (.inr rfl))
  | hex numeral =>
    cases second with
    | dec other => exact absurd other (tagged (.inl rfl))
    | hex other => exact numeral.unique other
  | upper numeral =>
    cases second with
    | dec other => exact absurd other (tagged (.inr rfl))
    | upper other => exact numeral.unique other

/-- Two ways to split a number off in front of a dot are one. -/
theorem numeral_dot {ta tb ra rb : List Char} {a b : Int} (ha : Numeral 10 ta a) (hb : Numeral 10 tb b)
    (same : ta ++ '.' :: ra = tb ++ '.' :: rb) : a = b ∧ ra = rb := by
  have first := scanNumber_numeral ha (stops_dot ra)
  have second := scanNumber_numeral hb (stops_dot rb)
  rw [same, second] at first
  cases first
  exact ⟨rfl, rfl⟩

theorem AddrNames.unique {a b : Address} (first : AddrNames lib lnd text a)
    (second : AddrNames lib lnd other b) (same : text = other) : a = b := by
  cases first with
  | number plain number =>
    cases second with
    | number _ number' =>
      subst same
      rw [number.unique number']
    | quad dotted => cases plain.symm.trans dotted
    | host dotted => cases plain.symm.trans dotted
  | quad dotted ha hb hc hd =>
    cases second with
    | number plain => cases dotted.symm.trans plain
    | quad _ ha' hb' hc' hd' => grind [numeral_dot]
    | host _ letter => exact (Letter.not_numeral letter ha same.symm).elim
  | host dotted letter known =>
    cases second with
    | number plain => cases dotted.symm.trans plain
    | quad _ ha' => exact (Letter.not_numeral letter ha' same).elim
    | host _ _ known' =>
      rw [same, known'] at known
      cases known
      rfl

theorem NetNames.unique {a b : Lnd} {w : Int} (first : NetNames text a v)
    (second : NetNames other b w) (same : text = other) : a = b ∧ v = w := by
  have name {str : List Char} {lnd : Lnd} {u : Int} (net : NetNames str lnd u) :
      libcfsNamenum2netstrfns str = some lnd := by
    cases net with
    | plain =>
      have found := libcfsNamenum2netstrfns_name lnd []
      rwa [append_nil] at found
    | numbered => exact libcfsNamenum2netstrfns_name lnd _
  have lnd : b = a := Option.some.inj ((name second).symm.trans (same ▸ name first))
  subst lnd
  refine ⟨rfl, ?_⟩
  cases first with
  | plain =>
    cases second with
    | plain => rfl
    | numbered _ numeral => exact absurd (self_eq_append_right.mp same) (numeral_ne_nil numeral)
  | numbered _ numeral =>
    cases second with
    | plain => exact absurd (append_cancel_left (same.trans (append_nil _).symm)) (numeral_ne_nil numeral)
    | numbered _ numeral' =>
      cases append_cancel_left same
      exact numeral.unique numeral'

theorem Names.unique {a b : Named} (first : Names lib str a) (second : Names lib other b)
    (same : str = other) : a = b := by
  cases first with
  | onNet plain net addr =>
    cases second with
    | onNet plain' net' addr' =>
      obtain ⟨sameText, sameNet⟩ := splitAt_unique plain plain' same
      obtain ⟨rfl, rfl⟩ := net.unique net' sameNet
      rw [addr.unique addr' sameText]
    | onTcp plain' => exact absurd (same ▸ by simp) plain'
  | onTcp plain addr =>
    cases second with
    | onNet => exact absurd (same.symm ▸ by simp) plain
    | onTcp _ addr' => rw [addr.unique addr' same]

/-! ### Printed identifiers -/

theorem numeral_decimal (n : UInt32) : Numeral 10 (decimal n) n.toNat :=
  numeral_toDigits (by decide) (by decide) n.toNat

theorem length_decimal {n : UInt32} {k : Nat} (positive : 0 < k) (small : n.toNat < 10 ^ k) :
    (decimal n).length ≤ k :=
  (Nat.length_toDigits_le_iff (by decide) positive).mpr small

theorem snprintf_fits {size : Nat} (fits : text.length < size) : snprintf size text = text :=
  take_of_length_le (by omega)

theorem at_not_digit {n : Nat} (low : 1 < base) (hex : base ≤ 16) : '@' ∉ Nat.toDigits base n := by
  intro mem
  have digit := isDigit_of_mem_toDigits low hex mem
  cases digit

theorem toNat_byte (x : UInt32) : (x &&& 0xff).toNat < 256 := by
  rw [toNat_and_byte]
  omega

theorem toNat_bytes (addr : UInt32) :
    ((addr >>> 24) &&& 0xff).toNat * 2 ^ 24 + ((addr >>> 16) &&& 0xff).toNat * 2 ^ 16 +
      ((addr >>> 8) &&& 0xff).toNat * 2 ^ 8 + (addr &&& 0xff).toNat = addr.toNat := by
  have bound := addr.toNat_lt
  have first : (addr >>> 24).toNat = addr.toNat / 2 ^ 24 := Nat.shiftRight_eq_div_pow _ 24
  have second : (addr >>> 16).toNat = addr.toNat / 2 ^ 16 := Nat.shiftRight_eq_div_pow _ 16
  have third : (addr >>> 8).toNat = addr.toNat / 2 ^ 8 := Nat.shiftRight_eq_div_pow _ 8
  rw [toNat_and_byte, toNat_and_byte, toNat_and_byte, toNat_and_byte]
  omega

/-- A printed address is short, has no network in it, and writes exactly the address. -/
structure Printed (lib : CLib) (lnd : Lnd) (addr : UInt32) (text : List Char) : Prop where
  length : text.length ≤ 15
  plain : '@' ∉ text
  names : ∃ address, AddrNames lib lnd text address ∧ address.Fits ∧ address.Exact addr ∧
    (lnd.dotted = false → address = .number addr.toNat)

theorem printed_number (plain : lnd.dotted = false) (length : text.length ≤ 15) (noNet : '@' ∉ text)
    (number : NumberText text addr.toNat) : Printed lib lnd addr text := by
  have bound := addr.toNat_lt
  exact ⟨length, noNet, .number addr.toNat, .number plain number, ⟨by omega, by omega⟩, rfl, fun _ => rfl⟩

theorem printed_decimal (plain : lnd.dotted = false) (addr : UInt32) :
    Printed lib lnd addr (libcfsDecnumAddr2str addr) := by
  have bound := addr.toNat_lt
  have length : (decimal addr).length ≤ 10 := length_decimal (by decide) (by omega)
  rw [libcfsDecnumAddr2str, snprintf_fits (by rw [lnetNidstrSize]; omega)]
  exact printed_number plain (by omega) (at_not_digit (by decide) (by decide)) (.dec (numeral_decimal addr))

theorem printed_hexadecimal (plain : lnd.dotted = false) (addr : UInt32) :
    Printed lib lnd addr (libcfsHexnumAddr2str addr) := by
  have length : ('0' :: 'x' :: hexadecimal addr).length ≤ 10 := by
    have digits : (hexadecimal addr).length ≤ 8 :=
      (Nat.length_toDigits_le_iff (by decide) (by decide)).mpr addr.toNat_lt
    simp only [length_cons]
    omega
  have noNet : '@' ∉ '0' :: 'x' :: hexadecimal addr := by
    have none : '@' ∉ hexadecimal addr := at_not_digit (by decide) (by decide)
    simp [none]
  rw [libcfsHexnumAddr2str, snprintf_fits (by rw [lnetNidstrSize]; omega)]
  exact printed_number plain (by omega) noNet (.hex (numeral_toDigits (by decide) (by decide) addr.toNat))

theorem printed_dotted (dotted : lnd.dotted = true) (addr : UInt32) :
    Printed lib lnd addr (libcfsIpAddr2str addr) := by
  have ha := toNat_byte (addr >>> 24)
  have hb := toNat_byte (addr >>> 16)
  have hc := toNat_byte (addr >>> 8)
  have hd := toNat_byte addr
  have whole := toNat_bytes addr
  unfold libcfsIpAddr2str
  generalize (addr >>> 24) &&& 0xff = a at *
  generalize (addr >>> 16) &&& 0xff = b at *
  generalize (addr >>> 8) &&& 0xff = c at *
  generalize addr &&& 0xff = d at *
  have three {n : UInt32} (byte : n.toNat < 256) : (decimal n).length ≤ 3 :=
    length_decimal (by decide) (by omega)
  have noNet (n : UInt32) : '@' ∉ decimal n := at_not_digit (by decide) (by decide)
  have length : (decimal a ++ '.' :: (decimal b ++ '.' :: (decimal c ++ '.' :: decimal d))).length ≤ 15 := by
    grind
  have bytes : Address.Fits (.quad a.toNat b.toNat c.toNat d.toNat) :=
    ⟨⟨by omega, by omega⟩, ⟨by omega, by omega⟩, ⟨by omega, by omega⟩, ⟨by omega, by omega⟩⟩
  rw [snprintf_fits (by rw [lnetNidstrSize]; omega)]
  refine ⟨length, by simp [noNet], .quad a.toNat b.toNat c.toNat d.toNat,
    .quad dotted (numeral_decimal a) (numeral_decimal b) (numeral_decimal c) (numeral_decimal d), ?_, ?_, ?_⟩
  · exact bytes
  · exact ⟨bytes, by omega⟩
  · intro plain
    cases plain.symm.trans dotted

theorem nfAddr2str_printed (lib : CLib) (lnd : Lnd) (addr : UInt32) : Printed lib lnd addr (lnd.nfAddr2str addr) := by
  cases lnd with
  | lo | elan | ptl => exact printed_decimal rfl addr
  | gm => exact printed_hexadecimal rfl addr
  | tcp | o2ib | cib | openib | iib | vib | ra | mx => exact printed_dotted rfl addr

/-- A printed identifier names what it is. -/
theorem libcfsNid2str_names (lib : CLib) {nid : UInt64}
    (known : libcfsLnd2netstrfns (lnetNettyp (lnetNidnet nid)) = some lnd)
    (lo : lnd = .lo → lnetNetnum (lnetNidnet nid) = 0 ∧ lnetNidaddr nid = 0) :
    ∃ named, Names lib (libcfsNid2str nid) named ∧ named.Fits ∧ named.Exact nid := by
  have typ : lnetNettyp (lnetNidnet nid) = lnd.nfType := by
    have passed := find?_some known
    exact (of_decide_eq_true passed).symm
  have some' : nid ≠ lnetNidAny := by
    rintro rfl
    revert known
    cases lnd <;> decide
  have small : (lnetNetnum (lnetNidnet nid)).toNat < 2 ^ 16 := by
    rw [toNat_lnetNetnum]
    omega
  obtain ⟨length, plain, address, addrNames, fits, exact', number⟩ :=
    nfAddr2str_printed lib lnd (lnetNidaddr nid)
  have name : lnd.nfName.length ≤ 6 := by cases lnd <;> decide
  have lowLo : lnd = .lo → address = .number 0 := by
    intro isLo
    have same := number (by rw [isLo]; rfl)
    rw [same, (lo isLo).2]
    rfl
  have range : 0 ≤ ((lnetNetnum (lnetNidnet nid)).toNat : Int) ∧
      ((lnetNetnum (lnetNidnet nid)).toNat : Int) < 2 ^ 16 := ⟨by omega, by omega⟩
  refine ⟨⟨lnd, (lnetNetnum (lnetNidnet nid)).toNat, address⟩, ?_, ⟨range, fits, lowLo⟩,
    ⟨typ, rfl, exact'⟩⟩
  unfold libcfsNid2str
  rw [if_neg some', known]
  dsimp only
  split
  · rename_i zero
    rw [snprintf_fits (by rw [lnetNidstrSize, length_cons]; omega), zero]
    exact .onNet plain (.plain lnd) addrNames
  · rename_i more
    have digits : (decimal (lnetNetnum (lnetNidnet nid))).length ≤ 5 :=
      length_decimal (by decide) (by omega)
    have ne : lnd ≠ .lo := fun isLo => more (lo isLo).1
    rw [snprintf_fits (by rw [lnetNidstrSize, length_cons, length_append]; omega)]
    exact .onNet plain (.numbered ne (numeral_decimal _)) addrNames

end

/-- Identifiers of known network types are read back from their texts, on `lo` the one with number and
address zero.  An accepted text names exactly one identifier, or is something on `lo`, and gives exactly
what it names if and only if that fits.  Texts that fit and name different networks give different
identifiers. -/
theorem nid_string_exact_iff (lib : CLib) :
    (∀ nid lnd, libcfsLnd2netstrfns (lnetNettyp (lnetNidnet nid)) = some lnd →
      (lnd = .lo → lnetNetnum (lnetNidnet nid) = 0 ∧ lnetNidaddr nid = 0) →
      libcfsStr2nid lib (libcfsNid2str nid) = nid) ∧
    (∀ str, libcfsStr2nid lib str ≠ lnetNidAny →
      (∃ named, Names lib str named) ∨ ∃ text, str = text ++ '@' :: Lnd.lo.nfName) ∧
    (∀ str a b, Names lib str a → Names lib str b → a = b) ∧
    (∀ str, libcfsStr2nid lib str ≠ lnetNidAny →
      ((∃ named, Names lib str named ∧ named.Exact (libcfsStr2nid lib str)) ↔
        ∃ named, Names lib str named ∧ named.Fits)) ∧
    ∀ str other a b, Names lib str a → Names lib other b → a.Fits → b.Fits →
      (a.lnd, a.number) ≠ (b.lnd, b.number) → libcfsStr2nid lib str ≠ libcfsStr2nid lib other := by
  refine ⟨fun nid lnd known lo => ?_, fun str accepted => names_of_libcfsStr2nid accepted,
    fun str a b first second => first.unique second rfl, fun str accepted => ⟨?_, ?_⟩, ?_⟩
  · obtain ⟨named, names, fits, exact'⟩ := libcfsNid2str_names lib known lo
    have result : named.Exact (libcfsStr2nid lib (libcfsNid2str nid)) := by
      rw [libcfsStr2nid_named names]
      exact Named.result_exact lib fits
    have typ := result.typ.trans exact'.typ.symm
    have number := result.number.trans exact'.number.symm
    have addr : (lnetNidaddr (libcfsStr2nid lib (libcfsNid2str nid))).toNat =
        (lnetNidaddr nid).toNat := by
      have first := result.address
      have second := exact'.address
      cases written : named.address with
      | number v =>
        rw [written] at first second
        have same := Eq.trans first (Eq.symm second)
        omega
      | quad a b c d =>
        rw [written] at first second
        have same := first.2.trans second.2.symm
        omega
    grind [toNat_lnetNettyp, toNat_lnetNidnet, toNat_lnetNetnum, toNat_lnetNidaddr, UInt64.toNat_inj]
  · grind [libcfsStr2nid_named, Named.fits_of_exact]
  · rintro ⟨named, names, fits⟩
    refine ⟨named, names, ?_⟩
    rw [libcfsStr2nid_named names]
    exact Named.result_exact lib fits
  · intro str other a b first second fits fits' differ same
    rw [libcfsStr2nid_named first, libcfsStr2nid_named second] at same
    have exactA := Named.result_exact lib fits
    have exactB := Named.result_exact lib fits'
    rw [same] at exactA
    have lnd : a.lnd = b.lnd := by
      have typ := exactA.typ.symm.trans exactB.typ
      revert typ
      cases a.lnd <;> cases b.lnd <;> decide
    have number := exactA.number.symm.trans exactB.number
    exact differ (by rw [lnd, number])

/-- A library that knows no hosts and stores zero for a number that does not fit. -/
def plainLib : CLib := ⟨fun _ => 0, fun _ => none⟩

/-- `192.168.0.7@tcp5` is printed and read back. -/
theorem nid_string_exact_tcp :
    libcfsNid2str 0x00020005c0a80007 = "192.168.0.7@tcp5".toList ∧
      libcfsStr2nid plainLib "192.168.0.7@tcp5".toList = 0x00020005c0a80007 := by
  have printed : libcfsNid2str 0x00020005c0a80007 = "192.168.0.7@tcp5".toList := by decide
  refine ⟨printed, ?_⟩
  exact (nid_string_exact_iff plainLib).1 0x00020005c0a80007 .tcp (by decide) (by decide)

/-- `5@elan65536` names network 65536 and is accepted like `5@elan`; `5@lo` names address 5 and is
accepted with address 0. -/
theorem net_number_overflows :
    Names plainLib "5@elan65536".toList ⟨.elan, 65536, .number 5⟩ ∧
      Names plainLib "5@elan".toList ⟨.elan, 0, .number 5⟩ ∧
      libcfsStr2nid plainLib "5@elan65536".toList = libcfsStr2nid plainLib "5@elan".toList ∧
      libcfsStr2nid plainLib "5@elan".toList ≠ lnetNidAny ∧
      Names plainLib "5@lo".toList ⟨.lo, 0, .number 5⟩ ∧
      lnetNidaddr (libcfsStr2nid plainLib "5@lo".toList) = 0 ∧
      libcfsStr2nid plainLib "5@lo".toList ≠ lnetNidAny := by
  have five : Numeral 10 "5".toList 5 := numeral_decimal 5
  have number : Numeral 10 "65536".toList 65536 := numeral_decimal 65536
  have overflows : "5@elan65536".toList = "5".toList ++ '@' :: (Lnd.elan.nfName ++ "65536".toList) := by
    decide
  refine ⟨?_, ?_, by decide, by decide, ?_, by decide, by decide⟩
  · rw [overflows]
    exact .onNet (by decide) (.numbered (by decide) number) (.number rfl (.dec five))
  · exact .onNet (by decide) (.plain .elan) (.number rfl (.dec five))
  · exact .onNet (by decide) (.plain .lo) (.number rfl (.dec five))

end Libcfs
