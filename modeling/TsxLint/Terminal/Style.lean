/-
Module: TsxLint.Terminal.Style
Purpose: Escape codes for colours and weights, and texts without them.
Main exports: Terminal.styled, Terminal.stripCodes, Terminal.useColor
-/

namespace TsxLint.Terminal

/-!
An escape code is an escape character, a bracket, any number of digits,
semicolons and question marks, and a letter.  Styled texts hold such codes; where
output is no terminal they are taken out again.
-/

/-- The escape code with the given parameters that sets a style. -/
def code (parameters : String) : String := "\x1b[" ++ parameters ++ "m"

/-- The code that ends every style. -/
def resetCode : String := code "0"

/-- A text between codes that set styles and the one that ends them. -/
def styled (parameters : List String) (text : String) : String :=
  String.join (parameters.map code) ++ text ++ resetCode

/-! ### Texts without codes -/

/-- Whether a character can stand between the bracket and the letter of a code. -/
def isCodeParameter (c : Char) : Bool := c == ';' || c == '?' || c.isDigit

/-- The length of the escape code at the beginning of a text, zero if there is
none. -/
def codeLength (cs : List Char) : Nat :=
  match cs with
  | '\x1b' :: '[' :: rest =>
    let parameters := rest.takeWhile isCodeParameter
    match rest.drop parameters.length with
    | c :: _ => if c.isAlpha then parameters.length + 3 else 0
    | [] => 0
  | _ => 0

/-- Drops `skip` characters and then every escape code. -/
def stripFrom (skip : Nat) : List Char → List Char
  | [] => []
  | c :: rest =>
    match skip with
    | k + 1 => stripFrom k rest
    | 0 =>
      match codeLength (c :: rest) with
      | k + 1 => stripFrom k rest
      | 0 => c :: stripFrom 0 rest

/-- A text without escape codes. -/
def stripCodes (s : String) : String := String.ofList (stripFrom 0 s.toList)

/-! ### Whether to use colours -/

/-- What the surroundings say about colours. -/
structure ColorRequest where
  /-- What the user asked for explicitly. -/
  explicit : Option Bool
  noColor : Bool
  forceColor : Bool
  /-- Whether output is a terminal, as far as that is known. -/
  terminal : Option Bool
deriving Repr

/-- Whether to use colours: what was asked for, else not if colours are
forbidden, else so if they are forced, else unless output is known to be no
terminal. -/
def useColor (r : ColorRequest) : Bool :=
  match r.explicit with
  | some wanted => wanted
  | none => if r.noColor then false else r.forceColor || r.terminal.getD true

end TsxLint.Terminal
