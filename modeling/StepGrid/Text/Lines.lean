/-! Lines of a text and the blanks around them. A line ends at a line feed, which may
have a carriage return before it; a text that ends in a line feed has no further line. -/

namespace StepGrid.Text

/-- Unicode's white space. -/
def isBlank (char : Char) : Bool :=
  let code := char.toNat
  (9 ≤ code && code ≤ 13) || code == 32 || code == 0x85 || code == 0xa0 || code == 0x1680 ||
    (0x2000 ≤ code && code ≤ 0x200a) || code == 0x2028 || code == 0x2029 || code == 0x202f ||
    code == 0x205f || code == 0x3000

def trim (text : List Char) : List Char :=
  ((text.dropWhile isBlank).reverse.dropWhile isBlank).reverse

/-- The pieces between line feeds, one more than there are line feeds. -/
def pieces (text : List Char) : List (List Char) :=
  text.foldr (fun char rest =>
    if char = '\n' then [] :: rest
    else match rest with
      | [] => [[char]]
      | piece :: others => (char :: piece) :: others) [[]]

/-- A line without the carriage return that its line feed may follow. -/
def withoutReturn (line : List Char) : List Char :=
  if line.getLast? = some '\r' then line.dropLast else line

def lines (text : List Char) : List (List Char) :=
  let all := pieces text
  all.dropLast.map withoutReturn ++ all.getLast?.toList.filter (!·.isEmpty)

def joinLines (lines : List (List Char)) : List Char := List.intercalate ['\n'] lines

end StepGrid.Text
