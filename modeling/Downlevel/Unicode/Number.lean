import Downlevel.Unicode.Digit

/-!
# Numeric characters
-/

namespace Downlevel.Unicode

/-- The runs of the categories `Nl` and `No`. -/
def otherNumberRuns : List Nat :=
  [178, 2, 5, 1, 2, 3, 2357, 6, 376, 6, 120, 3, 133, 7, 217, 7, 17, 9, 433, 10, 1077, 20, 881, 3,
    255, 10, 480, 1, 1685, 1, 3, 6, 6, 10, 198, 51, 2, 5, 726, 60, 78, 22, 630, 30, 1385, 1, 777, 1,
    25, 9, 14, 3, 343, 4, 138, 10, 30, 8, 1, 15, 32, 10, 39, 15, 29734, 10, 320, 6, 22737, 45, 12,
    57, 17, 2, 341, 27, 36, 4, 29, 1, 8, 1, 134, 5, 1154, 8, 25, 7, 39, 9, 75, 5, 22, 6, 160, 2, 2,
    16, 2, 46, 64, 9, 52, 2, 30, 3, 75, 5, 104, 8, 24, 8, 41, 7, 330, 6, 352, 31, 158, 10, 42, 4,
    112, 7, 134, 20, 379, 20, 1349, 2, 430, 9, 871, 19, 851, 21, 1067, 111, 18156, 7, 798, 23, 349,
    3, 25289, 20, 12, 20, 108, 25, 5454, 9, 929, 59, 1, 3, 1, 4, 76, 45, 1, 15, 962, 13]

/-- Digits, letter numbers and other numbers. -/
def isNumber (c : Char) : Bool :=
  isDigit c || inRuns false otherNumberRuns c.toNat

end Downlevel.Unicode
