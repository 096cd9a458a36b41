/-
Module: TsxLint.Text.Blank
Purpose: White space: which characters are blank, stripping, words and lines.
Main exports: Text.isBlank, Text.strip, Text.words, Text.splitLines, Text.splitAt
-/

namespace TsxLint.Text

/-!
Blank characters separate class names and fill the gaps between siblings of
markup.  The set is Unicode's white space together with the four ASCII
separator controls.  Line breaks are a different, smaller set that matters only
where text is cut into lines.
-/

/-- White space, the ASCII separators `1C`–`1F` included. -/
def isBlank (c : Char) : Bool :=
  let n := c.toNat
  (0x9 ≤ n && n ≤ 0xd) || (0x1c ≤ n && n ≤ 0x20) || n == 0x85 || n == 0xa0 || n == 0x1680 ||
    (0x2000 ≤ n && n ≤ 0x200a) || n == 0x2028 || n == 0x2029 || n == 0x202f || n == 0x205f ||
    n == 0x3000

/-- Drops blank characters at both ends. -/
def stripChars (cs : List Char) : List Char :=
  ((cs.dropWhile isBlank).reverse.dropWhile isBlank).reverse

/-- Drops blank characters at both ends. -/
def strip (s : String) : String :=
  String.ofList (stripChars s.toList)

/-- Whether a text holds nothing but blank characters; true of the empty text. -/
def isBlankText (s : String) : Bool :=
  s.toList.all isBlank

/-- Whether a text is a run of at least one blank character. -/
def isBlankRun (s : String) : Bool :=
  !s.toList.isEmpty && s.toList.all isBlank

/-- The maximal runs of characters that are not blank, in order.  `word` is the
run in progress, reversed. -/
def wordsFrom (word : List Char) : List Char → List (List Char)
  | [] => if word.isEmpty then [] else [word.reverse]
  | c :: rest =>
    if isBlank c then
      if word.isEmpty then wordsFrom [] rest else word.reverse :: wordsFrom [] rest
    else wordsFrom (c :: word) rest

/-- The words of a text: its maximal runs of characters that are not blank. -/
def words (s : String) : List String :=
  (wordsFrom [] s.toList).map String.ofList

/-- The pieces between occurrences of `mark`; there is always one more piece
than there are marks. -/
def splitAt (mark : Char) : List Char → List (List Char)
  | [] => [[]]
  | c :: rest =>
    match splitAt mark rest with
    | [] => [[]]
    | piece :: pieces => if c == mark then [] :: piece :: pieces else (c :: piece) :: pieces

/-- Characters that end a line when text is cut into lines. -/
def isLineBreak (c : Char) : Bool :=
  let n := c.toNat
  (0xa ≤ n && n ≤ 0xd) || (0x1c ≤ n && n ≤ 0x1e) || n == 0x85 || n == 0x2028 || n == 0x2029

/-- The lines of a text, each with the break that ends it.  A carriage return
and the line feed after it are one break. -/
def splitLines : List Char → List (List Char)
  | [] => []
  | '\r' :: '\n' :: rest => ['\r', '\n'] :: splitLines rest
  | c :: rest =>
    if isLineBreak c then [c] :: splitLines rest
    else
      match splitLines rest with
      | [] => [[c]]
      | line :: lines => (c :: line) :: lines

/-- Carriage returns, alone or before a line feed, read as line feeds. -/
def unifyLineEnds : List Char → List Char
  | [] => []
  | '\r' :: '\n' :: rest => '\n' :: unifyLineEnds rest
  | '\r' :: rest => '\n' :: unifyLineEnds rest
  | c :: rest => c :: unifyLineEnds rest

/-- Whether `part` occurs in `whole` as a run of consecutive characters. -/
def occursIn (part : List Char) : List Char → Bool
  | [] => part.isEmpty
  | c :: rest => part.isPrefixOf (c :: rest) || occursIn part rest

/-- Whether `part` occurs in `whole` as a run of consecutive characters. -/
def contains (whole part : String) : Bool :=
  occursIn part.toList whole.toList

end TsxLint.Text
