/-
# UTF-8 characters

`fcitx-utils/utf8.c`: reading one character of a NUL-terminated string,
counting characters and skipping them, writing a character, and checking a
string. A string is the list of its bytes before the terminator, so reading at
its length gives the terminator; bytes after a zero are those after the
terminator.

Key definitions: `Utf8.getChar`, `Utf8.strlen`, `Utf8.getNthChar`,
`Utf8.ucs4ToUtf8`, `Utf8.getCharExtended`, `Utf8.checkString`.
-/
import Mathlib.Data.Int.Notation
import Mathlib.Data.List.Basic

namespace Fcitx

/-- The bytes of a C string, without the terminator. -/
abbrev Bytes := List UInt8

instance Bytes.lawfulBEq : LawfulBEq Bytes := inferInstance

/-- `s[i]`; the terminator stands at the length. -/
def Bytes.at (s : Bytes) (i : ℕ) : UInt8 := s.getD i 0

namespace Utf8

/-- `CONT(i)`: byte `i` continues a character. -/
def cont (s : Bytes) (i : ℕ) : Bool := s.at i &&& 0xc0 == 0x80

/-- `VAL(i, shift)`: the bits byte `i` contributes. -/
def val (s : Bytes) (i : ℕ) (shift : UInt32) : UInt32 := (s.at i &&& 0x3f).toUInt32 <<< shift

/-- `fcitx_utf8_get_char`: the character at the start of `s` and the rest of
the string. A byte that starts no complete character is returned alone. -/
def getChar (s : Bytes) : UInt32 × Bytes :=
  let c := s.at 0
  if c &&& 0x80 == 0 then (c.toUInt32, s.drop 1)
  -- 2-byte, 0x80-0x7ff
  else if c &&& 0xe0 == 0xc0 && cont s 1 then
    ((c &&& 0x1f).toUInt32 <<< 6 ||| val s 1 0, s.drop 2)
  -- 3-byte, 0x800-0xffff
  else if c &&& 0xf0 == 0xe0 && cont s 1 && cont s 2 then
    ((c &&& 0xf).toUInt32 <<< 12 ||| val s 1 6 ||| val s 2 0, s.drop 3)
  -- 4-byte, 0x10000-0x1FFFFF
  else if c &&& 0xf8 == 0xf0 && cont s 1 && cont s 2 && cont s 3 then
    ((c &&& 0x7).toUInt32 <<< 18 ||| val s 1 12 ||| val s 2 6 ||| val s 3 0, s.drop 4)
  -- 5-byte, 0x200000-0x3FFFFFF
  else if c &&& 0xfc == 0xf8 && cont s 1 && cont s 2 && cont s 3 && cont s 4 then
    ((c &&& 0x3).toUInt32 <<< 24 ||| val s 1 18 ||| val s 2 12 ||| val s 3 6 ||| val s 4 0,
      s.drop 5)
  -- 6-byte, 0x400000-0x7FFFFFF
  else if c &&& 0xfe == 0xfc && cont s 1 && cont s 2 && cont s 3 && cont s 4 && cont s 5 then
    ((c &&& 0x1).toUInt32 <<< 30 ||| val s 1 24 ||| val s 2 18 ||| val s 3 12 ||| val s 4 6 |||
      val s 5 0, s.drop 6)
  else (c.toUInt32, s.drop 1)

/-- The counting loop of `fcitx_utf8_strlen`, with at most `fuel` characters. -/
def strlenFrom : ℕ → Bytes → ℕ
  | 0, _ => 0
  | fuel + 1, s => if s.at 0 == 0 then 0 else strlenFrom fuel (getChar s).2 + 1

/-- `fcitx_utf8_strlen`: every character takes at least one byte. -/
def strlen (s : Bytes) : ℕ := strlenFrom s.length s

/-- `fcitx_utf8_get_nth_char`: the string from its `n`th character on. -/
def getNthChar (s : Bytes) : ℕ → Bytes
  | 0 => s
  | n + 1 => if s.at 0 == 0 then s else getNthChar (getChar s).2 n

/-- `while (*s) s = fcitx_utf8_get_char(s, &chr)`, with at most `fuel` characters:
the characters, and where it stops. -/
def charsFrom : ℕ → Bytes → List UInt32 × Bytes
  | 0, s => ([], s)
  | fuel + 1, s =>
    if s.at 0 == 0 then ([], s)
    else
      let (chr, s) := getChar s
      let (chrs, s) := charsFrom fuel s
      (chr :: chrs, s)

/-- Iterating `fcitx_utf8_get_char` to the terminator. -/
def chars (s : Bytes) : List UInt32 × Bytes := charsFrom s.length s

/-- `fcitx_utf8_char_len` -/
def charLen (s : Bytes) : ℕ :=
  let c := s.at 0
  if c &&& 0x80 == 0 then 1
  -- 2-byte, 0x80-0x7ff
  else if c &&& 0xe0 == 0xc0 && cont s 1 then 2
  -- 3-byte, 0x800-0xffff
  else if c &&& 0xf0 == 0xe0 && cont s 1 && cont s 2 then 3
  -- 4-byte, 0x10000-0x1FFFFF
  else if c &&& 0xf8 == 0xf0 && cont s 1 && cont s 2 && cont s 3 then 4
  -- 5-byte, 0x200000-0x3FFFFFF
  else if c &&& 0xfc == 0xf8 && cont s 1 && cont s 2 && cont s 3 && cont s 4 then 5
  -- 6-byte, 0x400000-0x7FFFFFF
  else if c &&& 0xfe == 0xfc && cont s 1 && cont s 2 && cont s 3 && cont s 4 && cont s 5 then 6
  else 1

/-! ### Writing a character -/

/-- `fcitx_ucs4_char_len` -/
def ucs4CharLen (c : UInt32) : ℕ :=
  if c < 0x80 then 1
  else if c < 0x800 then 2
  else if c < 0x10000 then 3
  else if c < 0x200000 then 4
  else if c < 0x8000000 then 5
  else 6

/-- `(char) (base + ((c >> shift) & mask))` -/
def outByte (base c shift mask : UInt32) : UInt8 := (base + ((c >>> shift) &&& mask)).toUInt8

/-- `fcitx_ucs4_to_utf8`: the number it returns, and the bytes it writes before
the terminator. -/
def ucs4ToUtf8 (c : UInt32) : ℕ × Bytes :=
  if c < 0x80 then (1, [(c &&& 0xFF).toUInt8])
  else if c < 0x800 then (2, [outByte 0xC0 c 6 0x1F, outByte 0x80 c 0 0x3F])
  else if c < 0x10000 then (3, [outByte 0xE0 c 12 0x0F, outByte 0x80 c 6 0x3F, outByte 0x80 c 0 0x3F])
  else if c < 0x200000 then
    (4, [outByte 0xF0 c 18 0x07, outByte 0x80 c 12 0x3F, outByte 0x80 c 6 0x3F, outByte 0x80 c 0 0x3F])
  -- below is not in UCS4 but in 32bit int.
  else if c < 0x8000000 then
    (5, [outByte 0xF8 c 24 0x03, outByte 0x80 c 18 0x3F, outByte 0x80 c 12 0x3F, outByte 0x80 c 6 0x3F,
      outByte 0x80 c 0 0x3F])
  else
    (6, [outByte 0xFC c 30 0x01, outByte 0x80 c 24 0x3F, outByte 0x80 c 18 0x3F, outByte 0x80 c 12 0x3F,
      outByte 0x80 c 6 0x3F, outByte 0x80 c 0 0x3F])

/-- The characters written one after another. -/
def writeChars (cs : List UInt32) : Bytes := cs.flatMap fun c => (ucs4ToUtf8 c).2

/-! ### Checking a string -/

/-- `UTF8_LENGTH` -/
def utf8Length (c : UInt32) : ℕ :=
  if c < 0x80 then 1
  else if c < 0x800 then 2
  else if c < 0x10000 then 3
  else if c < 0x200000 then 4
  else if c < 0x4000000 then 5
  else 6

/-- `UNICODE_VALID` -/
def unicodeValid (c : UInt32) : Bool :=
  c < 0x110000 && (c &&& 0xFFFFF800) != 0xD800 && (c < 0xFDD0 || c > 0xFDEF) && (c &&& 0xFFFE) != 0xFFFE

/-- The loop of `fcitx_utf8_get_char_extended` from byte `i` on, over `n` bytes. -/
def extendLoop (s : Bytes) : ℕ → ℕ → UInt32 → Except UInt32 UInt32
  | 0, _, wc => .ok wc
  | n + 1, i, wc =>
    let ch := (s.at i).toUInt32
    if ch &&& 0xc0 != 0x80 then .error (if ch != 0 then -1 else -2)
    else extendLoop s n (i + 1) (wc <<< 6 ||| (ch &&& 0x3f))

/-- `fcitx_utf8_get_char_extended` after the first byte. -/
def extend (s : Bytes) (maxLen : ℤ) (len : ℕ) (wc : UInt32) : UInt32 :=
  if 0 ≤ maxLen ∧ maxLen < len then
    if (List.range' 1 (maxLen.toNat - 1)).all (cont s) then -2 else -1
  else match extendLoop s (len - 1) 1 wc with
    | .error wc => wc
    | .ok wc => if utf8Length wc != len then -1 else wc

/-- `fcitx_utf8_get_char_extended` -/
def getCharExtended (s : Bytes) (maxLen : ℤ) : UInt32 :=
  let wc := (s.at 0).toUInt32
  if wc < 0x80 then wc
  else if wc < 0xc0 then -1
  else if wc < 0xe0 then extend s maxLen 2 (wc &&& 0x1f)
  else if wc < 0xf0 then extend s maxLen 3 (wc &&& 0x0f)
  else if wc < 0xf8 then extend s maxLen 4 (wc &&& 0x07)
  else if wc < 0xfc then extend s maxLen 5 (wc &&& 0x03)
  else if wc < 0xfe then extend s maxLen 6 (wc &&& 0x01)
  else -1

/-- `fcitx_utf8_get_char_validated` -/
def getCharValidated (s : Bytes) (maxLen : ℤ) : UInt32 :=
  if maxLen = 0 then -2
  else
    let result := getCharExtended s maxLen
    if result &&& 0x80000000 != 0 then result
    else if !unicodeValid result then -1
    else result

/-- The loop of `fcitx_utf8_check_string`, with at most `fuel` characters. -/
def checkFrom : ℕ → Bytes → Bool
  | 0, _ => true
  | fuel + 1, s =>
    if s.at 0 == 0 then true
    else
      let chr := getCharValidated s 6
      if chr == -1 || chr == -2 then false
      else checkFrom fuel (getChar s).2

/-- `fcitx_utf8_check_string` -/
def checkString (s : Bytes) : Bool := checkFrom s.length s

end Utf8

end Fcitx
