import ReadGuard.Text.Ranges

namespace ReadGuard.Text

def blankRanges : Ranges :=
  [(9, 13), (32, 32), (133, 133), (160, 160), (5760, 5760), (8192, 8202), (8232, 8233),
   (8239, 8239), (8287, 8287), (12288, 12288)]

def isBlank (c : Char) : Bool :=
  blankRanges.holds c

/-- A character that counts as empty at the ends of a text: a blank or one of the four information
separators. -/
def isMargin (c : Char) : Bool :=
  isBlank c || (28 ≤ c.toNat && c.toNat ≤ 31)

def trim (p : Char → Bool) (cs : List Char) : List Char :=
  ((cs.dropWhile p).reverse.dropWhile p).reverse

def isEmptyText (s : String) : Bool :=
  s.toList.all isMargin

end ReadGuard.Text
