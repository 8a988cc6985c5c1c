/-
  `app/core/security.py`: normalisation and keyed hashes of phones, emails and codes, the
  hashes of admin passwords and their check. The keyed hash is the platform's `hmac`, the
  slow one its `pbkdf2`; the character classes are those of the interpreter's `str` methods
  (Unicode 14).
-/
import Mathlib.Algebra.Group.Nat.Defs
import LinkedOut.Core

namespace LinkedOut

/-! ## `str` methods -/

def inRanges (ranges : List (Nat × Nat)) (c : Char) : Bool :=
  ranges.any fun r => decide (r.1 ≤ c.toNat) && decide (c.toNat ≤ r.2)

/-- The code points with the property Numeric_Type=Decimal or Digit. -/
def digitRanges : List (Nat × Nat) :=
  [(48, 57), (178, 179), (185, 185), (1632, 1641), (1776, 1785), (1984, 1993), (2406, 2415),
    (2534, 2543), (2662, 2671), (2790, 2799), (2918, 2927), (3046, 3055), (3174, 3183),
    (3302, 3311), (3430, 3439), (3558, 3567), (3664, 3673), (3792, 3801), (3872, 3881),
    (4160, 4169), (4240, 4249), (4969, 4977), (6112, 6121), (6160, 6169), (6470, 6479),
    (6608, 6618), (6784, 6793), (6800, 6809), (6992, 7001), (7088, 7097), (7232, 7241),
    (7248, 7257), (8304, 8304), (8308, 8313), (8320, 8329), (9312, 9320), (9332, 9340),
    (9352, 9360), (9450, 9450), (9461, 9469), (9471, 9471), (10102, 10110), (10112, 10120),
    (10122, 10130), (42528, 42537), (43216, 43225), (43264, 43273), (43472, 43481),
    (43504, 43513), (43600, 43609), (44016, 44025), (65296, 65305), (66720, 66729),
    (68160, 68163), (68912, 68921), (69216, 69224), (69714, 69722), (69734, 69743),
    (69872, 69881), (69942, 69951), (70096, 70105), (70384, 70393), (70736, 70745),
    (70864, 70873), (71248, 71257), (71360, 71369), (71472, 71481), (71904, 71913),
    (72016, 72025), (72784, 72793), (73040, 73049), (73120, 73129), (92768, 92777),
    (92864, 92873), (93008, 93017), (120782, 120831), (123200, 123209), (123632, 123641),
    (125264, 125273), (127232, 127242), (130032, 130041)]

/-- `str.isdigit` of one character. -/
def isDigit (c : Char) : Bool := inRanges digitRanges c

/-- The code points of category Nd. -/
def decimalRanges : List (Nat × Nat) :=
  [(48, 57), (1632, 1641), (1776, 1785), (1984, 1993), (2406, 2415), (2534, 2543), (2662, 2671),
    (2790, 2799), (2918, 2927), (3046, 3055), (3174, 3183), (3302, 3311), (3430, 3439),
    (3558, 3567), (3664, 3673), (3792, 3801), (3872, 3881), (4160, 4169), (4240, 4249),
    (6112, 6121), (6160, 6169), (6470, 6479), (6608, 6617), (6784, 6793), (6800, 6809),
    (6992, 7001), (7088, 7097), (7232, 7241), (7248, 7257), (42528, 42537), (43216, 43225),
    (43264, 43273), (43472, 43481), (43504, 43513), (43600, 43609), (44016, 44025),
    (65296, 65305), (66720, 66729), (68912, 68921), (69734, 69743), (69872, 69881),
    (69942, 69951), (70096, 70105), (70384, 70393), (70736, 70745), (70864, 70873),
    (71248, 71257), (71360, 71369), (71472, 71481), (71904, 71913), (72016, 72025),
    (72784, 72793), (73040, 73049), (73120, 73129), (92768, 92777), (92864, 92873),
    (93008, 93017), (120782, 120831), (123200, 123209), (123632, 123641), (125264, 125273),
    (130032, 130041)]

/-- `str.isdecimal` of one character, and `\d` of a pattern. -/
def isDecimal (c : Char) : Bool := inRanges decimalRanges c

def spaceRanges : List (Nat × Nat) :=
  [(9, 13), (28, 32), (133, 133), (160, 160), (5760, 5760), (8192, 8202), (8232, 8233),
    (8239, 8239), (8287, 8287), (12288, 12288)]

/-- `str.isspace` of one character. -/
def isSpace (c : Char) : Bool := inRanges spaceRanges c

/-- The blanks that `int` and `bytes.fromhex` pass over: not all that `str.isspace` knows. -/
def isBlank (c : Char) : Bool := inRanges [(9, 13), (32, 32)] c

/-- A check of each character of a given text. -/
theorem forall_mem_of_all {p : Char → Prop} [DecidablePred p] {w : List Char}
    (h : (w.all fun c => decide (p c)) = true) : ∀ c ∈ w, p c := by
  simpa using h

theorem upper_range {c : Char} (h : c.isUpper = true) : 65 ≤ c.toNat ∧ c.toNat ≤ 90 := by
  have hrange : 'A'.val ≤ c.val ∧ c.val ≤ 'Z'.val := of_decide_eq_true h
  exact hrange

theorem lower_range {c : Char} (h : c.isLower = true) : 97 ≤ c.toNat ∧ c.toNat ≤ 122 := by
  obtain ⟨hlow, hhigh⟩ := Bool.and_eq_true_iff.mp h
  have ha : 'a'.val ≤ c.val := of_decide_eq_true hlow
  have hz : c.val ≤ 'z'.val := of_decide_eq_true hhigh
  exact ⟨ha, hz⟩

theorem digit_range {c : Char} (h : c.isDigit = true) : 48 ≤ c.toNat ∧ c.toNat ≤ 57 := by
  obtain ⟨hlow, hhigh⟩ := Bool.and_eq_true_iff.mp h
  have h0 : '0'.val ≤ c.val := of_decide_eq_true hlow
  have h9 : c.val ≤ '9'.val := of_decide_eq_true hhigh
  exact ⟨h0, h9⟩

theorem isAlpha_iff {c : Char} : c.isAlpha = true ↔ c.isUpper = true ∨ c.isLower = true :=
  Bool.or_eq_true_iff

/-- `str.strip`. -/
def strip (s : String) : String :=
  String.ofList (((s.toList.dropWhile isSpace).reverse.dropWhile isSpace).reverse)

/-- `str.zfill` of a numeral without sign. -/
def zfill (width : Nat) (s : String) : String :=
  String.ofList (List.replicate (width - s.toList.length) '0' ++ s.toList)

/-! ## Phones -/

/-- `_normalize_phone`; the error is the text of the `ValueError`. -/
def normalizePhone (phone : String) : Except String String :=
  let digits := phone.toList.filter fun ch => isDigit ch || ch == '+'
  if digits.head? = some '+' then .ok (String.ofList digits)
  else .error "phone must be in E.164 format, e.g. +15551234567"

def hashPhone (p : Platform) (phone : String) : Except String String :=
  (normalizePhone phone).map p.hmac

def hashPii (p : Platform) (value : String) : String := p.hmac value

/-! ## Emails and codes -/

def normalizeEmail (p : Platform) (email : String) : String := p.lower (strip email)

/-- What follows the first `@`. -/
def splitEmailDomain (email : String) : Except String String :=
  match email.toList.dropWhile fun ch => ch ≠ '@' with
  | [] => .error "not a valid email address"
  | [_] => .error "not a valid email address"
  | _ :: domain => .ok (String.ofList domain)

def hashEmail (p : Platform) (email : String) : String := hashPii p (normalizeEmail p email)

def hashDomain (p : Platform) (domain : String) : String := hashPii p (p.lower (strip domain))

def hashCode (p : Platform) (code : String) : String := hashPii p code

/-- `str(secrets.randbelow(10 ** length)).zfill(length)`. -/
def generateNumericCode (length random : Nat) : String :=
  zfill length (toString (random % 10 ^ length))

/-! ## Admin passwords -/

def hexDigit (c : Char) : Option Nat :=
  if '0' ≤ c && c ≤ '9' then some (c.toNat - '0'.toNat)
  else if 'a' ≤ c && c ≤ 'f' then some (c.toNat - 'a'.toNat + 10)
  else if 'A' ≤ c && c ≤ 'F' then some (c.toNat - 'A'.toNat + 10)
  else none

/-- `bytes.fromhex`: pairs of hex digits, blanks allowed between pairs. -/
def fromHex : List Char → Option (List UInt8)
  | [] => some []
  | [c] => if isBlank c then some [] else none
  | c :: d :: rest =>
    if isBlank c then fromHex (d :: rest)
    else do
      let high ← hexDigit c
      let low ← hexDigit d
      let bytes ← fromHex rest
      return UInt8.ofNat (16 * high + low) :: bytes

/-- `bytes.hex` -/
def toHex (bytes : List UInt8) : String :=
  String.ofList
    (bytes.flatMap fun b => [Nat.digitChar (b.toNat / 16), Nat.digitChar (b.toNat % 16)])

/-- The digits of `int(s)`: single underscores are allowed between digits. -/
def intDigits (value : Nat) : List Char → Option Nat
  | [] => some value
  | [c] => if c.isDigit then some (10 * value + (c.toNat - '0'.toNat)) else none
  | c :: d :: rest =>
    if c.isDigit then
      let value' := 10 * value + (c.toNat - '0'.toNat)
      if d == '_' then (if rest.isEmpty then none else intDigits value' rest)
      else intDigits value' (d :: rest)
    else none

/-- `int` takes a decimal digit of any script as the ASCII digit, and whitespace that is not
    ASCII as a blank. -/
def intChar (c : Char) : Char :=
  if c.toNat < 127 then c
  else if isSpace c then ' '
  else
    match decimalRanges.find? fun r => decide (r.1 ≤ c.toNat) && decide (c.toNat ≤ r.2) with
    | some r => Nat.digitChar ((c.toNat - r.1) % 10)
    | none => '?'

/-- `int(s)` -/
def pyInt (s : String) : Option Int :=
  let text := (s.toList.map intChar).dropWhile isBlank
  match (text.reverse.dropWhile isBlank).reverse with
  | [] => none
  | ['+'] => none
  | ['-'] => none
  | '+' :: digits => (intDigits 0 digits).map Int.ofNat
  | '-' :: digits => (intDigits 0 digits).map fun n => -Int.ofNat n
  | digits => (intDigits 0 digits).map Int.ofNat

/-- `_PBKDF2_ITERATIONS` of this release. -/
def pbkdf2Iterations : Nat := 600000

/-- `hash_password` while `_PBKDF2_ITERATIONS` is `iterations`; `salt` is what
    `secrets.token_bytes` draws. `pbkdf2_hmac` raises on a count below 1, then nothing is
    returned. -/
def hashPassword (p : Platform) (iterations : Nat) (salt : List UInt8) (password : String) :
    Option String :=
  if iterations < 1 then none
  else
    let digest := p.pbkdf2 password salt iterations
    some ("pbkdf2_sha256$" ++ toString iterations ++ "$" ++ toHex salt ++ "$" ++ toHex digest)

/-- `verify_password`; `pbkdf2_hmac` raises on an iteration count below 1. That it raises above
    2^31 - 1 as well is left out. -/
def verifyPassword (p : Platform) (password storedHash : String) : Except HttpException Bool :=
  match storedHash.toList.splitOn '$' with
  | [algorithm, iterationsStr, saltHex, digestHex] =>
    if String.ofList algorithm ≠ "pbkdf2_sha256" then .ok false
    else
      match pyInt (String.ofList iterationsStr), fromHex saltHex, fromHex digestHex with
      | some iterations, some salt, some expected =>
        if iterations < 1 then .error internalServerError
        else .ok (p.pbkdf2 password salt iterations.toNat == expected)
      | _, _, _ => .ok false
  | _ => .ok false

end LinkedOut
