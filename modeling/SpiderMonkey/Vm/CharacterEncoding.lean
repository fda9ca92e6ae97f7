import SpiderMonkey.Lib.LittleEndian
import SpiderMonkey.Lib.Utf

/-!
# Inflating UTF-8 and WTF-8 (vm/CharacterEncoding.cpp)

The loop that decodes bytes into units of UTF-16, the helper that runs it twice, once to count and once to copy, and
the number of bytes that a sequence of units needs.  The index of the loop is a `uint32_t`, and the length of the
source a `size_t`.
-/

namespace SpiderMonkey.CharacterEncoding

open LittleEndian (Byte)
open Utf

/-- The type of the source, `InputCharsT`. -/
inductive InputChars
  | utf8Chars
  | wtf8Chars
deriving DecidableEq

inductive OnUTF8Error
  | insertReplacementCharacter
  | insertQuestionMark
  | throw
  | crash
deriving DecidableEq

/-- What is reported of an invalid source, with the argument of the report. -/
inductive Report
  | invalidCharacter (offset : ℕ)
  | bufferTooSmall
  | tooBigCharacter (v : ℕ)

def uint32 (n : ℕ) : ℕ := n % 2 ^ 32

def invalidUTF8 : ℕ := 2 ^ 32 - 1

def nonBMPMin : ℕ := 0x10000

def nonBMPMax : ℕ := 0x10FFFF

def replacementCharacter : ℕ := 0xFFFD

def questionMark : ℕ := 0x3F

def leadSurrogate (codePoint : ℕ) : ℕ := ((codePoint >>> 10) + (0xD800 - (nonBMPMin >>> 10))) % 2 ^ 16

def trailSurrogate (codePoint : ℕ) : ℕ := ((codePoint &&& 0x3FF) ||| 0xDC00) % 2 ^ 16

/-! ## One character -/

/-- The number of bytes that the leading byte announces: `while (v & (0x80 >> n)) n++`. -/
def announcedLoop (v : ℕ) : ℕ → ℕ → ℕ
  | 0, n => n
  | fuel + 1, n => if v &&& (0x80 >>> n) ≠ 0 then announcedLoop v fuel (n + 1) else n

/-- Eight rounds are enough, as `0x80 >> 8` is zero. -/
def announced (v : ℕ) : ℕ := announcedLoop v 8 1

variable (kind : InputChars)

/-- What the second byte must not be after this leading byte. -/
def rejectsSecond (v second : ℕ) : Bool :=
  if (v = 0xE0 ∧ second &&& 0xE0 ≠ 0xA0) ∨ (v = 0xED ∧ second &&& 0xE0 ≠ 0x80) ∨
      (v = 0xF0 ∧ second &&& 0xF0 = 0x80) ∨ (v = 0xF4 ∧ second &&& 0xF0 ≠ 0x80) then
    match kind with
    | .utf8Chars => true
    | .wtf8Chars => v = 0xED ∧ second &&& 0xE0 ≠ 0xA0
  else false

/-- The leading bytes for which the second byte is looked at. -/
def looksAtSecond (v : ℕ) : Bool := v = 0xE0 ∨ v = 0xED ∨ v = 0xF0 ∨ v = 0xF4

def minucs4Table (utf8Length : ℕ) : ℕ :=
  if utf8Length = 2 then 0x80 else if utf8Length = 3 then 0x800 else nonBMPMin

/-- The last steps of the conversion are on a `uint32_t`, which four bytes do not fill. -/
def utf8ToOneUcs4Char (utf8Length first : ℕ) (tails : List ℕ) : ℕ :=
  let ucs4Char := tails.foldl (fun ucs4Char b => (ucs4Char <<< 6) ||| (b &&& 0x3F))
    (first &&& ((1 <<< (7 - utf8Length)) - 1))
  if ucs4Char < minucs4Table utf8Length then invalidUTF8
  else if kind = .utf8Chars ∧ IsSurrogate ucs4Char then invalidUTF8
  else ucs4Char

/-- What is found at an index: units and the number of bytes they take, an invalid character and the number of bytes
that are given up, or a read past the end of the source. -/
inductive Decoded
  | units (us : List ℕ) (n : ℕ)
  | invalid (report : Report) (n2 : ℕ)
  | outOfBounds

/-- The bytes at `i + m, …, i + n - 1`, as far as they are tails. -/
inductive Tails
  | all (tails : List ℕ)
  | brokenAt (m : ℕ)
  | outOfBounds

/-- Checks the continuation bytes: `left` of them from `i + m` on. -/
def continuationBytes (src : List ℕ) (i : ℕ) : ℕ → ℕ → List ℕ → Tails
  | 0, _, tails => .all tails
  | left + 1, m, tails =>
    match src[uint32 (i + m)]? with
    | none => .outOfBounds
    | some b => if b &&& 0xC0 ≠ 0x80 then .brokenAt m else continuationBytes src i left (m + 1) (tails ++ [b])

/-- The units of a character that has been converted. -/
def unitsOf (v n : ℕ) : Decoded :=
  if v < nonBMPMin then .units [v] n
  else if v ≤ nonBMPMax then .units [leadSurrogate v, trailSurrogate v] n
  else .invalid (.tooBigCharacter v) 1

/-- A character whose bytes fit, after its second byte has been checked. -/
def convert (src : List ℕ) (i v n : ℕ) : Decoded :=
  match continuationBytes src i (n - 1) 1 [] with
  | .outOfBounds => .outOfBounds
  | .brokenAt m => .invalid (.invalidCharacter i) m
  | .all tails => unitsOf (utf8ToOneUcs4Char kind n v tails) n

/-- One round of the loop of `InflateUTF8ToUTF16`, for the byte `v` at the index `i`. -/
def decodeAt (src : List ℕ) (i v : ℕ) : Decoded :=
  if v &&& 0x80 = 0 then .units [v] 1
  else
    let n := announced v
    if n < 2 ∨ n > 4 then .invalid (.invalidCharacter i) 1
    else if uint32 (i + n) > src.length then .invalid .bufferTooSmall 1
    else if looksAtSecond v then
      match src[uint32 (i + 1)]? with
      | none => .outOfBounds
      | some second =>
        if rejectsSecond kind v second then .invalid (.invalidCharacter i) 1 else convert kind src i v n
    else convert kind src i v n

/-! ## The loop -/

inductive Outcome
  | done (units : List ℕ)
  | threw (report : Report)
  | crashed
  | outOfBounds

/-- What a mode does about an invalid character: the unit it puts out, or none where it does not go on. -/
def OnUTF8Error.replacement : OnUTF8Error → Option ℕ
  | .insertReplacementCharacter => some replacementCharacter
  | .insertQuestionMark => some questionMark
  | .throw => none
  | .crash => none

/-- The end that a mode without a replacement comes to. -/
def OnUTF8Error.gaveUp (report : Report) : OnUTF8Error → Outcome
  | .throw => .threw report
  | _ => .crashed

/-- The loop from the index `i` on, with the units that `dst` has been called with; `none` where the fuel is used up. -/
def inflateLoop (action : OnUTF8Error) (kind : InputChars) (src : List ℕ) : ℕ → ℕ → List ℕ → Option Outcome
  | 0, _, _ => none
  | fuel + 1, i, out =>
    match src[i]? with
    | none => some (.done out)
    | some v =>
      match decodeAt kind src i v with
      | .outOfBounds => some .outOfBounds
      | .units us n => inflateLoop action kind src fuel (uint32 (i + n)) (out ++ us)
      | .invalid report n2 =>
        match action.replacement with
        | none => some (action.gaveUp report)
        | some replacement => inflateLoop action kind src fuel (uint32 (i + n2)) (out ++ [replacement])

def inflateUTF8ToUTF16 (action : OnUTF8Error) (kind : InputChars) (src : List Byte) (fuel : ℕ) : Option Outcome :=
  inflateLoop action kind (src.map BitVec.toNat) fuel 0 []

/-! ## Counting and copying -/

/-- The type of the units that are stored. -/
inductive CharT
  | char16
  | latin1Char
deriving DecidableEq

def CharT.cast (c : ℕ) : CharT → ℕ
  | .char16 => c % 2 ^ 16
  | .latin1Char => c % 2 ^ 8

/-- `for (uint32_t i = 0; i < srclen; i++) dst[i] = CharT(src[i])`; the stores at an index after a wrap are not the
first ones to it. -/
def copyASCIILoop (charT : CharT) (src : List ℕ) : ℕ → ℕ → List ℕ → Option (List ℕ)
  | 0, _, _ => none
  | fuel + 1, i, dst =>
    match src[i]? with
    | none => some dst
    | some b => copyASCIILoop charT src fuel (uint32 (i + 1)) (dst ++ [charT.cast b])

/-- The mode of the second pass. -/
def CharT.errorMode : CharT → OnUTF8Error
  | .latin1Char => .insertQuestionMark
  | .char16 => .insertReplacementCharacter

/-- The units that are stored before the NUL, where the pass comes to an end. -/
def copyAndInflateUTF8IntoBuffer (errorAction : OnUTF8Error) (charT : CharT) (kind : InputChars) (src : List Byte)
    (allASCII : Bool) (fuel : ℕ) : Option (List ℕ) :=
  if allASCII then copyASCIILoop charT (src.map BitVec.toNat) fuel 0 []
  else
    match inflateUTF8ToUTF16 errorAction kind src fuel with
    | some (.done units) => some (units.map fun c => charT.cast c)
    | _ => none

/-- What the helper does after it has allocated the buffer: the number of units counted, and what is stored. -/
structure Inflated where
  outlen : ℕ
  stored : List ℕ

/-- `none` where the source is not accepted. -/
def inflateUTF8StringHelper (errorAction : OnUTF8Error) (charT : CharT) (kind : InputChars) (src : List Byte)
    (fuel : ℕ) : Option Inflated :=
  match inflateUTF8ToUTF16 errorAction kind src fuel with
  | some (.done units) =>
    let allASCII := units.all (· < 0x80)
    (copyAndInflateUTF8IntoBuffer charT.errorMode charT kind src allASCII fuel).map fun stored =>
      { outlen := units.length, stored }
  | _ => none

/-- The combinations that the callers of the helper instantiate it with. -/
inductive UsedMode : OnUTF8Error → CharT → InputChars → Prop
  | utf8CharsToNewTwoByteCharsZ : UsedMode .throw .char16 .utf8Chars
  | wtf8CharsToNewTwoByteCharsZ : UsedMode .throw .char16 .wtf8Chars
  | lossyUTF8CharsToNewTwoByteCharsZ : UsedMode .insertReplacementCharacter .char16 .utf8Chars
  | utf8CharsToNewLatin1CharsZ : UsedMode .throw .latin1Char .utf8Chars
  | lossyUTF8CharsToNewLatin1CharsZ : UsedMode .insertQuestionMark .latin1Char .utf8Chars

/-! ## The length in UTF-8 -/

def isLeadSurrogate (c : ℕ) : Bool := 0xD800 ≤ c ∧ c ≤ 0xDBFF

def isTrailSurrogate (c : ℕ) : Bool := 0xDC00 ≤ c ∧ c ≤ 0xDFFF

def utf16Decode (lead trail : ℕ) : ℕ :=
  uint32 ((lead <<< 10) + trail + (2 ^ 32 + nonBMPMin - (0xD800 <<< 10) - 0xDC00))

/-- `while (v) { v >>= 5; nbytes++; }` -/
def deflatedBytes : ℕ → ℕ → ℕ
  | 0, _ => 0
  | fuel + 1, v => if v ≠ 0 then deflatedBytes fuel (v >>> 5) + 1 else 0

/-- The bytes a character takes beyond its first one; a value of 32 bits less 11 is zero after five rounds. -/
def extraBytes (v : ℕ) : ℕ := deflatedBytes 5 (v >>> 11) + 1

/-- The loop over the characters; `nbytes` begins with their number. -/
def deflatedLoop : List ℕ → ℕ → ℕ
  | [], nbytes => nbytes
  | c :: rest, nbytes =>
    if c < 0x80 then deflatedLoop rest nbytes
    else if IsSurrogate c then
      if isTrailSurrogate c ∨ rest = [] then deflatedLoop rest (nbytes + 2)
      else if ¬ isTrailSurrogate (rest.headD 0) then deflatedLoop rest (nbytes + 2)
      else deflatedLoop rest.tail (nbytes - 1 + extraBytes (utf16Decode c (rest.headD 0)))
    else deflatedLoop rest (nbytes + extraBytes c)
termination_by chars => chars.length
decreasing_by all_goals simp only [List.length_cons, List.length_tail]; omega

def getDeflatedUTF8StringLength (chars : List (BitVec 16)) : ℕ :=
  deflatedLoop (chars.map BitVec.toNat) chars.length

end SpiderMonkey.CharacterEncoding
