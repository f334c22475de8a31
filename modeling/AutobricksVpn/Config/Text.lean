/-
# `AutobricksVpn.Config.Text` — the `str` functions the configuration is read with

Texts are lists of characters.  The functions are those of Rust's `str`, with
what their documentation says of the corner cases: `trim` and
`split_whitespace` go by the Unicode property `White_Space`, `lines` takes a
final newline for the end of the last line, and an address is read only in
canonical dotted form.
-/
import AutobricksVpn.Net.Ipv4
import Mathlib.Data.List.Basic

namespace AutobricksVpn

abbrev Text := List Char

namespace Text

/-- `char::is_whitespace`. -/
def isWhitespace (c : Char) : Bool :=
  (0x09 ≤ c.toNat && c.toNat ≤ 0x0d) || c.toNat == 0x20 || c.toNat == 0x85 || c.toNat == 0xa0 ||
    c.toNat == 0x1680 || (0x2000 ≤ c.toNat && c.toNat ≤ 0x200a) || c.toNat == 0x2028 ||
    c.toNat == 0x2029 || c.toNat == 0x202f || c.toNat == 0x205f || c.toNat == 0x3000

def trimStart (t : Text) : Text := t.dropWhile isWhitespace

def trimEnd (t : Text) : Text := (t.reverse.dropWhile isWhitespace).reverse

def trim (t : Text) : Text := trimEnd (trimStart t)

def splitWhitespace (t : Text) : List Text := (t.splitOnP isWhitespace).filter (· ≠ [])

/-- What stands before and after the first `c`. -/
def splitOnce (c : Char) (t : Text) : Option (Text × Text) :=
  if c ∈ t then some (t.takeWhile (· ≠ c), (t.dropWhile (· ≠ c)).tail) else none

/-- `strip_prefix`. -/
def stripStart (start t : Text) : Option Text :=
  if start.isPrefixOf t then some (t.drop start.length) else none

/-- A line that was ended by a newline, without the carriage return before it. -/
def stripCarriageReturn (t : Text) : Text :=
  if t.getLast? = some '\r' then t.dropLast else t

/-- `str::lines`, of the pieces between newlines: the last piece is a line only
if there is something in it. -/
def linesOf : List Text → List Text
  | [] => []
  | [last] => if last = [] then [] else [last]
  | line :: rest => stripCarriageReturn line :: linesOf rest

def lines (t : Text) : List Text := linesOf (t.splitOnP (· == '\n'))

/-- The number spelt by decimal digits; `none` for anything else. -/
def parseDigits (t : Text) : Option Nat :=
  if t = [] ∨ ¬ t.all (·.isDigit) then none
  else some (t.foldl (fun n c => 10 * n + (c.toNat - '0'.toNat)) 0)

/-- `str::parse::<u8>`: a leading plus sign is allowed. -/
def parseU8 (t : Text) : Option Nat :=
  let digits := if t.head? = some '+' then t.tail else t
  (parseDigits digits).filter (· ≤ 255)

/-- One part of an address: one to three digits, without a leading zero. -/
def parseOctet (t : Text) : Option UInt8 :=
  if 3 < t.length ∨ (t.head? = some '0' ∧ 1 < t.length) then none
  else ((parseDigits t).filter (· ≤ 255)).map UInt8.ofNat

/-- `str::parse::<Ipv4Addr>`. -/
def parseIpv4 (t : Text) : Option Ipv4Addr :=
  match t.splitOnP (· == '.') with
  | [a, b, c, d] => do
      return Ipv4Addr.new (← parseOctet a) (← parseOctet b) (← parseOctet c) (← parseOctet d)
  | _ => none

def toAsciiLowercase (t : Text) : Text :=
  t.map fun c => if 'A' ≤ c ∧ c ≤ 'Z' then Char.ofNat (c.toNat + 32) else c

/-- `is_ascii_hexdigit`. -/
def isHexDigit (c : Char) : Bool :=
  c.isDigit || ('a' ≤ c && c ≤ 'f') || ('A' ≤ c && c ≤ 'F')

end Text

/-- `Display for Ipv4Addr`. -/
def Ipv4Addr.display (address : Ipv4Addr) : String :=
  let octet := fun shift : Nat => toString ((address >>> shift).toNat % 256)
  octet 24 ++ "." ++ octet 16 ++ "." ++ octet 8 ++ "." ++ octet 0

example : Text.parseIpv4 "10.9.1.2".toList = some (Ipv4Addr.new 10 9 1 2) := by decide +kernel

example : Text.lines "[client]\r\na = b\n".toList = ["[client]".toList, "a = b".toList] := by
  decide +kernel

end AutobricksVpn
