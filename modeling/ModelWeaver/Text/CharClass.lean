/-!
# Classes of characters

Properties of characters are given by ranges of code points, and these by their lengths.
-/

namespace ModelWeaver.Text

/-- Ranges of code points, in increasing order: in turn, how many code points lie before a
range and how many are in it. -/
abbrev CharRanges := List Nat

/-- Whether a code point lies in one of the ranges, given how far it is behind the ones
before them. -/
def CharRanges.containsAt : CharRanges → Nat → Bool
  | gap :: count :: ranges, distance =>
    if distance < gap + count then gap ≤ distance
    else containsAt ranges (distance - (gap + count))
  | _, _ => false

/-- Whether a character lies in one of the ranges. -/
def CharRanges.contains (ranges : CharRanges) (c : Char) : Bool :=
  ranges.containsAt c.toNat

/-- The code points with the property `White_Space`. -/
def blankRanges : CharRanges := [
  9, 5, 18, 1, 100, 1, 26, 1, 5599, 1, 2431, 11, 29, 2, 5, 1, 47, 1, 4000, 1]

/-- Whether a character is white space. -/
def isBlank (c : Char) : Bool :=
  blankRanges.contains c

/-- The code points of the number categories beyond ASCII. -/
def numericRanges : CharRanges := [
  178, 2, 5, 1, 2, 3, 1441, 10, 134, 10, 198, 10, 412, 10, 118, 10, 4, 6, 108, 10, 118, 10, 118,
  10, 2, 6, 110, 13, 115, 10, 8, 7, 103, 10, 104, 7, 7, 19, 109, 10, 96, 10, 118, 10, 70, 20,
  268, 10, 70, 10, 719, 20, 881, 3, 239, 10, 6, 10, 22, 10, 300, 10, 128, 11, 165, 10, 6, 10,
  182, 10, 86, 10, 134, 10, 6, 10, 1046, 1, 3, 6, 6, 10, 198, 51, 2, 5, 726, 60, 78, 22, 630,
  30, 1385, 1, 777, 1, 25, 9, 14, 3, 343, 4, 138, 10, 30, 8, 1, 15, 32, 10, 39, 15, 29536, 10,
  188, 10, 320, 6, 154, 10, 38, 10, 198, 10, 22, 10, 86, 10, 406, 10, 21270, 10, 493, 45, 12,
  57, 17, 2, 341, 27, 36, 4, 29, 1, 8, 1, 134, 5, 202, 10, 942, 8, 25, 7, 39, 9, 75, 5, 22, 6,
  160, 2, 2, 16, 2, 46, 64, 9, 52, 2, 30, 3, 75, 5, 104, 8, 24, 8, 41, 7, 330, 6, 48, 10, 6, 10,
  278, 31, 158, 10, 42, 4, 112, 7, 134, 30, 128, 10, 60, 10, 144, 10, 7, 20, 251, 10, 342, 10,
  118, 10, 374, 10, 102, 10, 6, 20, 76, 12, 420, 19, 93, 10, 662, 10, 86, 29, 227, 10, 70, 10,
  54, 10, 358, 10, 102, 21, 1067, 111, 15553, 10, 2342, 10, 86, 10, 134, 10, 1, 7, 526, 10, 262,
  23, 349, 3, 23801, 10, 1478, 20, 12, 20, 108, 25, 1109, 50, 2368, 10, 422, 10, 502, 10, 247,
  10, 716, 9, 128, 10, 791, 59, 1, 3, 1, 4, 76, 45, 1, 15, 962, 13, 2787, 10]

/-- Whether a character is a digit, a letter-like number or another number. -/
def isNumeric (c : Char) : Bool :=
  if c.toNat < 128 then c.isDigit else numericRanges.contains c

/-- The code points of the mark categories, of `Nd`, of `Pc` and of `Join_Control` that are not
alphabetic. -/
def wordPartRanges : CharRanges := [
  48, 10, 37, 1, 672, 69, 1, 29, 288, 7, 263, 31, 168, 1, 7, 10, 117, 2, 9, 3, 3, 10, 70, 11,
  117, 10, 33, 9, 9, 1, 26, 2, 19, 1, 43, 3, 60, 8, 42, 10, 12, 2, 8, 6, 76, 1, 16, 1, 3, 4, 17,
  10, 76, 1, 16, 1, 24, 10, 14, 1, 61, 1, 16, 1, 24, 10, 76, 1, 16, 1, 24, 10, 13, 3, 60, 1, 16,
  1, 7, 1, 16, 10, 93, 1, 24, 10, 76, 1, 16, 1, 24, 10, 76, 1, 16, 1, 24, 10, 75, 2, 16, 1, 24,
  10, 90, 1, 27, 10, 87, 6, 1, 1, 1, 10, 96, 1, 13, 5, 1, 1, 1, 10, 62, 2, 6, 10, 11, 1, 1, 1,
  1, 1, 4, 2, 68, 1, 1, 2, 62, 1, 112, 1, 1, 2, 5, 10, 70, 10, 707, 3, 948, 2, 30, 1, 127, 2,
  19, 11, 9, 1, 2, 10, 33, 3, 1, 11, 287, 3, 10, 10, 128, 10, 134, 1, 20, 8, 2, 11, 6, 10, 22,
  15, 2, 11, 104, 1, 15, 1, 11, 10, 17, 9, 54, 2, 4, 10, 44, 1, 11, 2, 67, 1, 8, 10, 6, 10, 118,
  3, 1, 21, 4, 1, 6, 1, 2, 3, 198, 19, 34, 11, 524, 2, 49, 2, 19, 1, 123, 33, 3070, 3, 141, 1,
  682, 6, 105, 2, 30085, 10, 69, 4, 9, 2, 114, 2, 276, 1, 37, 1, 151, 1, 11, 10, 6, 18, 14, 10,
  33, 3, 37, 1, 95, 1, 12, 1, 15, 10, 22, 10, 86, 10, 101, 1, 1, 1, 52, 1, 245, 2, 2, 10, 20998,
  16, 16, 16, 3, 2, 24, 3, 192, 10, 37, 1, 701, 1, 226, 1, 447, 10, 1422, 3, 4, 1, 165, 2, 585,
  10, 6, 10, 32, 4, 399, 3, 70, 11, 49, 4, 192, 1, 31, 11, 14, 1, 57, 2, 53, 10, 57, 2, 1, 10,
  51, 1, 76, 1, 8, 4, 3, 10, 91, 2, 178, 2, 5, 10, 65, 2, 16, 1, 24, 7, 3, 5, 89, 3, 1, 1, 14,
  2, 95, 1, 3, 1, 9, 10, 4, 1, 99, 2, 12, 10, 229, 2, 126, 1, 16, 10, 92, 2, 8, 10, 6, 20, 71,
  1, 4, 10, 255, 2, 165, 10, 83, 2, 4, 1, 12, 10, 134, 1, 82, 2, 18, 1, 80, 2, 342, 10, 69, 1,
  16, 10, 232, 1, 1, 2, 10, 10, 61, 1, 8, 10, 407, 2, 13, 11, 5349, 1, 6, 15, 11481, 11, 2342,
  10, 86, 10, 38, 5, 59, 7, 25, 10, 534, 10, 618, 1, 19640, 1, 4178, 10, 518, 46, 2, 23, 542, 5,
  3, 6, 8, 8, 2, 7, 30, 4, 148, 3, 1417, 50, 512, 55, 4, 50, 8, 1, 14, 1, 22, 5, 1, 15, 1664, 7,
  9, 10, 356, 1, 61, 14, 498, 14, 244, 2, 1, 10, 725, 7, 109, 3, 1, 3, 5, 10, 4758, 10, 787718,
  240]

/-- Whether a character that is no letter belongs to words, as of version 16 of Unicode. -/
def isWordPart (c : Char) : Bool :=
  wordPartRanges.contains c

/-- The code points with the property `Alphabetic` that version 17 of Unicode added. -/
def recentLetterRanges : CharRanges := [
  2191, 1, 972, 1, 127, 1, 39665, 2, 2, 1, 1, 1, 28, 1, 24910, 26, 1387, 3, 50, 2, 3172, 8, 584,
  44, 20676, 25, 2, 25, 286, 5, 6145, 8, 1289, 22, 97, 115, 22733, 31, 1, 22, 8, 2, 53306, 6,
  5986, 12, 21762, 4298]

/-- Whether a character is a letter that may stand in names, which follow version 17, but that
word boundaries do not know. -/
def isRecentLetter (c : Char) : Bool :=
  recentLetterRanges.contains c

end ModelWeaver.Text
