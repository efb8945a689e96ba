/-
Module: Lustre.Libcfs.NidString
Purpose: Network identifiers and their texts: `libcfs_nid2str` and `libcfs_str2nid`.
Trusted boundary: what `sscanf` stores for a number that does not fit, and `gethostbyname`, are
  parameters; a text has no NUL character
-/
import Lustre.Lib.Scan

namespace Libcfs

open Scan

/-- `LNET_NID_ANY`. -/
def lnetNidAny : UInt64 := 0xffffffffffffffff

/-- `LNET_NIDADDR`. -/
def lnetNidaddr (nid : UInt64) : UInt32 := (nid &&& 0xffffffff).toUInt32

/-- `LNET_NIDNET`. -/
def lnetNidnet (nid : UInt64) : UInt32 := (nid >>> 32).toUInt32 &&& 0xffffffff

/-- `LNET_MKNID`. -/
def lnetMknid (net addr : UInt32) : UInt64 := (net.toUInt64 <<< 32) ||| addr.toUInt64

/-- `LNET_NETNUM`. -/
def lnetNetnum (net : UInt32) : UInt32 := net &&& 0xffff

/-- `LNET_NETTYP`. -/
def lnetNettyp (net : UInt32) : UInt32 := (net >>> 16) &&& 0xffff

/-- `LNET_MKNET`. -/
def lnetMknet (typ num : UInt32) : UInt32 := (typ <<< 16) ||| num

/-- The entries of `libcfs_netstrfns`.  The last one is a placeholder that no search finds. -/
inductive Lnd where
  | lo
  | tcp
  | o2ib
  | cib
  | openib
  | iib
  | vib
  | ra
  | elan
  | gm
  | mx
  | ptl
deriving DecidableEq, Repr

/-- The order of the table. -/
def libcfsNetstrfns : List Lnd :=
  [.lo, .tcp, .o2ib, .cib, .openib, .iib, .vib, .ra, .elan, .gm, .mx, .ptl]

namespace Lnd

/-- `nf_type`. -/
def nfType : Lnd → UInt32
  | lo => 9
  | tcp => 2
  | o2ib => 5
  | cib => 6
  | openib => 7
  | iib => 8
  | vib => 11
  | ra => 10
  | elan => 1
  | gm => 3
  | mx => 12
  | ptl => 4

/-- `nf_name`. -/
def nfName : Lnd → List Char
  | lo => "lo".toList
  | tcp => "tcp".toList
  | o2ib => "o2ib".toList
  | cib => "cib".toList
  | openib => "openib".toList
  | iib => "iib".toList
  | vib => "vib".toList
  | ra => "ra".toList
  | elan => "elan".toList
  | gm => "gm".toList
  | mx => "mx".toList
  | ptl => "ptl".toList

end Lnd

/-- `libcfs_lnd2netstrfns`. -/
def libcfsLnd2netstrfns (lnd : UInt32) : Option Lnd :=
  libcfsNetstrfns.find? (fun nf => nf.nfType = lnd)

/-- `libcfs_namenum2netstrfns`. -/
def libcfsNamenum2netstrfns (name : List Char) : Option Lnd :=
  libcfsNetstrfns.find? (fun nf => nf.nfName.isPrefixOf name)

/-- What C leaves to the library. -/
structure CLib where
  /-- what `sscanf` stores for a number that does not fit into an `unsigned int` -/
  wide : Int → UInt32
  /-- `gethostbyname`, in host byte order -/
  gethostbyname : List Char → Option UInt32

/-- The number as it is stored. -/
def CLib.store (lib : CLib) (v : Int) : UInt32 :=
  if 0 ≤ v ∧ v < 2 ^ 32 then UInt32.ofNat v.toNat else lib.wide v

/-- `%u` and `%x`. -/
def CLib.scan (lib : CLib) (base : Nat) (text : List Char) : Option (UInt32 × List Char) :=
  match scanNumber base text with
  | some (v, rest) => some (lib.store v, rest)
  | none => none

/-- A character of a format. -/
def literal (c : Char) : List Char → Option (List Char)
  | [] => none
  | d :: text => if d = c then some text else none

/-- `snprintf` of a text. -/
def snprintf (size : Nat) (text : List Char) : List Char := text.take (size - 1)

/-- `%u`. -/
def decimal (n : UInt32) : List Char := Nat.toDigits 10 n.toNat

/-- `%x`. -/
def hexadecimal (n : UInt32) : List Char := Nat.toDigits 16 n.toNat

/-- `LNET_NIDSTR_SIZE`. -/
def lnetNidstrSize : Nat := 32

/-- `libcfs_ip_addr2str`. -/
def libcfsIpAddr2str (addr : UInt32) : List Char :=
  snprintf lnetNidstrSize
    (decimal ((addr >>> 24) &&& 0xff) ++ '.' :: (decimal ((addr >>> 16) &&& 0xff) ++
      '.' :: (decimal ((addr >>> 8) &&& 0xff) ++ '.' :: decimal (addr &&& 0xff))))

/-- `libcfs_decnum_addr2str`. -/
def libcfsDecnumAddr2str (addr : UInt32) : List Char := snprintf lnetNidstrSize (decimal addr)

/-- `libcfs_hexnum_addr2str`. -/
def libcfsHexnumAddr2str (addr : UInt32) : List Char :=
  snprintf lnetNidstrSize ('0' :: 'x' :: hexadecimal addr)

/-- `nf_addr2str`. -/
def Lnd.nfAddr2str : Lnd → UInt32 → List Char
  | lo | elan | ptl => libcfsDecnumAddr2str
  | gm => libcfsHexnumAddr2str
  | tcp | o2ib | cib | openib | iib | vib | ra | mx => libcfsIpAddr2str

/-- `libcfs_nid2str`. -/
def libcfsNid2str (nid : UInt64) : List Char :=
  let addr := lnetNidaddr nid
  let lnd := lnetNettyp (lnetNidnet nid)
  let nnum := lnetNetnum (lnetNidnet nid)
  if nid = lnetNidAny then "LNET_NID_ANY".toList
  else
    match libcfsLnd2netstrfns lnd with
    | none =>
      snprintf lnetNidstrSize (hexadecimal addr ++ '@' :: '<' :: (decimal lnd ++
        ':' :: (decimal nnum ++ ['>'])))
    | some nf =>
      let str := nf.nfAddr2str addr
      let size := lnetNidstrSize - str.length
      if nnum = 0 then str ++ snprintf size ('@' :: nf.nfName)
      else str ++ snprintf size ('@' :: (nf.nfName ++ decimal nnum))

/-! ### Scanning -/

/-- `sscanf(str, "%u.%u.%u.%u%n", &a, &b, &c, &d, &n)`, with the text behind what was read. -/
def scanQuad (lib : CLib) (str : List Char) :
    Option (UInt32 × UInt32 × UInt32 × UInt32 × List Char) := do
  let (a, str) ← lib.scan 10 str
  let str ← literal '.' str
  let (b, str) ← lib.scan 10 str
  let str ← literal '.' str
  let (c, str) ← lib.scan 10 str
  let str ← literal '.' str
  let (d, str) ← lib.scan 10 str
  some (a, b, c, d, str)

/-- A host name, where names are known. -/
def hostAddr (lib : CLib) (str : List Char) (nob : Nat) : Option UInt32 :=
  match str with
  | [] => none
  | c :: _ =>
    if 'a' ≤ c ∧ c ≤ 'z' ∨ 'A' ≤ c ∧ c ≤ 'Z' then lib.gethostbyname (str.take nob) else none

/-- `libcfs_ip_str2addr`. -/
def libcfsIpStr2addr (lib : CLib) (str : List Char) (nob : Nat) : Option UInt32 :=
  match scanQuad lib str with
  | some (a, b, c, d, rest) =>
    if str.length - rest.length = nob ∧ a &&& ~~~0xff = 0 ∧ b &&& ~~~0xff = 0 ∧
        c &&& ~~~0xff = 0 ∧ d &&& ~~~0xff = 0 then
      some ((a <<< 24) ||| (b <<< 16) ||| (c <<< 8) ||| d)
    else hostAddr lib str nob
  | none => hostAddr lib str nob

/-- `libcfs_lo_str2addr`: whatever the text is. -/
def libcfsLoStr2addr (_str : List Char) (_nob : Nat) : Option UInt32 := some 0

/-- `sscanf` of hexadecimal digits behind `0x` or `0X`. -/
def scanTagged (lib : CLib) (x : Char) (str : List Char) : Option (UInt32 × List Char) := do
  let str ← literal '0' str
  let str ← literal x str
  lib.scan 16 str

/-- A scan that has to end behind `nob` characters. -/
def within (str : List Char) (nob : Nat) (scanned : Option (UInt32 × List Char)) : Option UInt32 :=
  match scanned with
  | some (addr, rest) => if str.length - rest.length = nob then some addr else none
  | none => none

/-- `libcfs_num_str2addr`. -/
def libcfsNumStr2addr (lib : CLib) (str : List Char) (nob : Nat) : Option UInt32 :=
  match within str nob (scanTagged lib 'x' str) with
  | some addr => some addr
  | none =>
    match within str nob (scanTagged lib 'X' str) with
    | some addr => some addr
    | none => within str nob (lib.scan 10 str)

/-- `nf_str2addr`. -/
def Lnd.nfStr2addr (lib : CLib) : Lnd → List Char → Nat → Option UInt32
  | lo => libcfsLoStr2addr
  | elan | gm | ptl => libcfsNumStr2addr lib
  | tcp | o2ib | cib | openib | iib | vib | ra | mx => libcfsIpStr2addr lib

/-- `libcfs_str2net_internal`. -/
def libcfsStr2netInternal (lib : CLib) (str : List Char) : Option (Lnd × UInt32) :=
  match libcfsNamenum2netstrfns str with
  | none => none
  | some nf =>
    if str.length = nf.nfName.length then some (nf, lnetMknet nf.nfType 0)
    else if nf = .lo then none
    else
      match lib.scan 10 (str.drop nf.nfName.length) with
      | none => none
      | some (netnum, rest) =>
        if rest ≠ [] then none else some (nf, lnetMknet nf.nfType netnum)

/-- The end of `libcfs_str2nid`. -/
def addrNid (lib : CLib) (nf : Lnd) (net : UInt32) (str : List Char) (nob : Nat) : UInt64 :=
  match nf.nfStr2addr lib str nob with
  | none => lnetNidAny
  | some addr => lnetMknid net addr

/-- `libcfs_str2nid`. -/
def libcfsStr2nid (lib : CLib) (str : List Char) : UInt64 :=
  let nob := (str.takeWhile (· ≠ '@')).length
  match str.dropWhile (· ≠ '@') with
  | _ :: sep =>
    match libcfsStr2netInternal lib sep with
    | none => lnetNidAny
    | some (nf, net) => addrNid lib nf net str nob
  | [] => addrNid lib .tcp (lnetMknet Lnd.tcp.nfType 0) str nob

end Libcfs
