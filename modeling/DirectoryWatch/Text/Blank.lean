import DirectoryWatch.Text.CodePoints

/-!
# White space

The characters that count as white space, and texts without it at their ends.
-/
namespace DirectoryWatch.Text

def whiteSpace : CodePoints :=
  [(0x9, 0xd), (0x20, 0x20), (0x85, 0x85), (0xa0, 0xa0), (0x1680, 0x1680), (0x2000, 0x200a),
   (0x2028, 0x2029), (0x202f, 0x202f), (0x205f, 0x205f), (0x3000, 0x3000)]

def isBlankChar (c : Char) : Bool := whiteSpace.contains c

def trim (s : String) : String :=
  let front := s.toList.dropWhile isBlankChar
  String.ofList (front.reverse.dropWhile isBlankChar).reverse

def isBlank (s : String) : Bool := s.toList.all isBlankChar

end DirectoryWatch.Text
