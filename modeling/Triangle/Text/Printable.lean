import Triangle.Text.Letter

/-! Printable characters of Unicode 17.0: letters, marks, numbers, punctuation, symbols and the
ASCII blank. -/
namespace Triangle.Text

def printableRanges : Ranges := .ofRuns 128 [
  33, 11, 1, 713, 2, 5, 4, 6, 1, 0, 1, 19, 1, 396, 1, 37, 2, 49, 2, 2, 1, 54, 8, 26, 4, 5, 17, 21,
  1, 191, 1, 47, 2, 58, 2, 100, 14, 58, 2, 48, 2, 14, 1, 27, 2, 0, 1, 10, 5, 31, 7, 74, 1, 160, 1,
  7, 2, 1, 2, 21, 1, 6, 1, 0, 3, 3, 2, 8, 2, 1, 2, 3, 8, 0, 4, 1, 1, 4, 2, 24, 2, 2, 1, 5, 4, 1, 2,
  21, 1, 6, 1, 1, 1, 1, 1, 1, 2, 0, 1, 4, 4, 1, 2, 2, 3, 0, 7, 3, 1, 0, 7, 16, 10, 2, 1, 8, 1, 2, 1,
  21, 1, 6, 1, 1, 1, 4, 2, 9, 1, 2, 1, 2, 2, 0, 15, 3, 2, 11, 7, 6, 1, 2, 1, 7, 2, 1, 2, 21, 1, 6,
  1, 1, 1, 4, 2, 8, 2, 1, 2, 2, 7, 2, 4, 1, 1, 4, 2, 17, 10, 1, 1, 5, 3, 2, 1, 3, 3, 1, 1, 0, 1, 1,
  3, 1, 3, 2, 3, 11, 4, 4, 3, 2, 1, 3, 2, 0, 6, 0, 14, 20, 5, 12, 1, 2, 1, 22, 1, 15, 2, 8, 1, 2, 1,
  3, 7, 1, 1, 2, 1, 1, 2, 3, 2, 9, 7, 21, 1, 2, 1, 22, 1, 9, 1, 4, 2, 8, 1, 2, 1, 3, 7, 1, 5, 2, 1,
  3, 2, 9, 1, 2, 12, 12, 1, 2, 1, 50, 1, 2, 1, 5, 4, 15, 2, 25, 1, 2, 1, 17, 3, 23, 1, 8, 1, 0, 2,
  6, 3, 0, 4, 5, 1, 0, 1, 7, 6, 9, 2, 2, 12, 57, 4, 28, 37, 1, 1, 0, 1, 4, 1, 23, 1, 0, 1, 22, 2, 4,
  1, 0, 1, 6, 1, 9, 2, 3, 32, 71, 1, 35, 4, 38, 1, 35, 1, 14, 1, 12, 37, 197, 1, 0, 5, 0, 2, 376, 1,
  3, 2, 6, 1, 0, 1, 3, 2, 40, 1, 3, 2, 32, 1, 3, 2, 6, 1, 0, 1, 3, 2, 14, 1, 56, 1, 3, 2, 66, 2, 31,
  3, 25, 6, 85, 2, 5, 2, 639, 1, 27, 3, 88, 7, 21, 9, 23, 9, 19, 12, 12, 1, 2, 1, 1, 12, 93, 2, 9,
  6, 9, 6, 13, 1, 10, 6, 88, 7, 42, 5, 69, 10, 30, 1, 11, 4, 11, 4, 0, 3, 41, 2, 4, 11, 43, 4, 25,
  6, 10, 3, 61, 2, 64, 1, 28, 2, 10, 6, 9, 6, 13, 2, 45, 2, 11, 20, 76, 1, 165, 8, 59, 3, 14, 3, 61,
  5, 42, 2, 10, 8, 42, 5, 533, 2, 5, 2, 37, 2, 5, 2, 7, 1, 0, 1, 0, 1, 0, 1, 30, 2, 52, 1, 14, 1,
  13, 2, 5, 1, 18, 2, 2, 1, 8, 17, 23, 8, 46, 17, 1, 2, 26, 1, 12, 3, 33, 14, 32, 15, 139, 4, 665,
  22, 10, 21, 1811, 2, 381, 5, 44, 1, 0, 5, 0, 2, 55, 7, 1, 14, 23, 9, 6, 1, 6, 1, 6, 1, 6, 1, 6, 1,
  6, 1, 6, 1, 6, 1, 125, 34, 25, 1, 88, 12, 213, 26, 15, 1, 62, 1, 85, 2, 102, 5, 42, 1, 93, 1, 85,
  9, 47, 1, 29292, 3, 54, 9, 347, 20, 183, 8, 220, 20, 59, 3, 9, 6, 55, 8, 69, 8, 11, 6, 115, 11,
  29, 3, 77, 1, 10, 4, 32, 1, 54, 9, 13, 2, 9, 2, 102, 24, 27, 10, 5, 2, 5, 2, 5, 9, 6, 1, 6, 1, 59,
  4, 125, 2, 9, 6, 11171, 12, 22, 4, 48, 8452, 365, 2, 105, 38, 6, 12, 4, 5, 25, 1, 4, 1, 0, 1, 1,
  1, 1, 1, 649, 32, 41, 6, 50, 1, 18, 1, 3, 4, 4, 1, 134, 4, 189, 3, 5, 2, 5, 2, 5, 2, 2, 3, 6, 1,
  6, 13, 1, 2, 11, 1, 25, 1, 18, 1, 1, 1, 14, 2, 13, 34, 122, 5, 2, 4, 44, 3, 87, 1, 12, 3, 0, 47,
  45, 130, 28, 3, 48, 15, 27, 4, 35, 9, 29, 5, 42, 5, 29, 1, 36, 4, 13, 42, 157, 2, 9, 6, 35, 4, 35,
  4, 39, 8, 51, 11, 11, 1, 14, 1, 6, 1, 1, 1, 10, 1, 14, 1, 6, 1, 1, 3, 51, 12, 310, 9, 21, 10, 7,
  24, 5, 1, 41, 1, 8, 69, 5, 2, 0, 1, 43, 1, 1, 3, 0, 2, 22, 1, 71, 8, 8, 48, 18, 1, 1, 5, 32, 3,
  26, 5, 26, 38, 55, 4, 19, 2, 49, 1, 1, 5, 7, 1, 2, 1, 28, 2, 2, 4, 9, 7, 8, 7, 63, 32, 38, 4, 11,
  9, 53, 3, 28, 2, 26, 5, 25, 7, 3, 12, 6, 80, 72, 55, 50, 13, 50, 7, 45, 8, 9, 6, 37, 3, 28, 8, 1,
  208, 30, 1, 41, 1, 2, 2, 1, 16, 5, 8, 8, 33, 45, 8, 41, 22, 25, 38, 27, 20, 22, 9, 77, 4, 35, 9,
  61, 1, 4, 13, 24, 7, 9, 6, 52, 1, 17, 8, 38, 9, 95, 1, 19, 11, 17, 1, 46, 62, 6, 1, 0, 1, 3, 1,
  14, 1, 10, 6, 58, 5, 9, 6, 3, 1, 7, 2, 1, 2, 21, 1, 6, 1, 1, 1, 4, 1, 9, 2, 1, 2, 2, 2, 0, 6, 0,
  5, 6, 2, 6, 3, 4, 11, 9, 1, 0, 2, 0, 1, 37, 1, 9, 1, 0, 2, 0, 1, 3, 1, 9, 1, 1, 8, 1, 29, 91, 1,
  4, 30, 71, 8, 9, 166, 53, 2, 37, 34, 68, 11, 9, 6, 12, 19, 57, 6, 9, 6, 19, 28, 26, 2, 14, 4, 22,
  185, 59, 100, 82, 12, 7, 2, 0, 2, 7, 1, 1, 1, 29, 1, 1, 2, 11, 9, 9, 70, 7, 2, 45, 2, 10, 27, 71,
  8, 82, 13, 72, 7, 9, 86, 7, 88, 33, 14, 9, 6, 8, 1, 44, 1, 13, 10, 28, 3, 31, 2, 21, 1, 13, 73, 6,
  1, 1, 1, 43, 3, 0, 1, 1, 1, 8, 8, 9, 6, 5, 1, 1, 1, 36, 1, 1, 1, 5, 7, 9, 6, 43, 4, 9, 246, 24, 7,
  16, 1, 40, 3, 28, 85, 0, 15, 49, 13, 922, 102, 110, 1, 4, 11, 195, 2636, 98, 13, 1071, 16, 21, 10,
  3994, 5, 582, 6841, 57, 1734, 568, 7, 30, 1, 9, 4, 80, 1, 9, 6, 29, 2, 5, 10, 69, 10, 9, 1, 6, 1,
  20, 5, 18, 432, 57, 198, 90, 5, 24, 2, 24, 44, 74, 4, 56, 7, 16, 64, 4, 11, 6, 9, 7381, 41, 31,
  97, 114, 8701, 3, 1, 6, 1, 1, 1, 290, 15, 0, 29, 2, 2, 0, 14, 3, 8, 395, 2308, 106, 5, 12, 3, 8,
  7, 9, 2, 3, 3936, 252, 3, 435, 6, 22, 15, 16, 15, 45, 2, 22, 9, 115, 60, 245, 10, 38, 2, 73, 8,
  111, 21, 69, 122, 19, 12, 19, 12, 86, 9, 24, 135, 84, 1, 70, 1, 1, 2, 0, 2, 1, 2, 3, 1, 11, 1, 0,
  1, 6, 1, 64, 1, 3, 2, 7, 1, 6, 1, 27, 1, 3, 1, 4, 1, 0, 3, 6, 1, 339, 2, 291, 2, 701, 15, 4, 1,
  14, 1104, 30, 6, 5, 213, 6, 1, 16, 2, 6, 1, 1, 1, 4, 5, 61, 33, 0, 112, 44, 3, 13, 2, 9, 4, 1,
  320, 30, 17, 57, 5, 0, 464, 41, 214, 42, 4, 0, 192, 30, 1, 21, 8, 1, 224, 6, 1, 3, 1, 1, 1, 14, 1,
  196, 2, 15, 41, 75, 4, 9, 4, 1, 785, 67, 76, 60, 194, 3, 1, 26, 1, 1, 1, 0, 2, 0, 1, 9, 1, 3, 1,
  0, 1, 0, 6, 0, 4, 0, 1, 0, 1, 0, 1, 2, 1, 1, 1, 0, 2, 0, 1, 0, 1, 0, 1, 0, 1, 0, 1, 1, 1, 0, 2, 3,
  1, 6, 1, 3, 1, 3, 1, 0, 1, 9, 1, 16, 5, 2, 1, 4, 1, 16, 52, 1, 270, 43, 4, 99, 12, 14, 2, 14, 1,
  14, 1, 36, 10, 173, 56, 28, 13, 43, 4, 8, 7, 1, 14, 5, 154, 984, 3, 16, 3, 12, 3, 217, 6, 11, 4,
  0, 15, 11, 4, 55, 8, 9, 6, 39, 8, 29, 2, 11, 4, 1, 14, 8, 39, 343, 8, 13, 2, 12, 3, 10, 3, 56, 1,
  0, 4, 15, 2, 11, 4, 9, 7, 146, 1, 102, 1029, 42719, 32, 4381, 2, 5773, 2, 7472, 15, 621, 2466,
  541, 1506, 4938, 5, 8489, 707718, 239]

def isPrintable (c : Char) : Bool :=
  if c.toNat < 128 then ' ' ≤ c && c ≤ '~' else printableRanges.contains c

end Triangle.Text
