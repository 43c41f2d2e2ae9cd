import DddCqrsEs.Cuts

/- How PostgreSQL reads a text as lexemes, with `standard_conforming_strings` on. Blanks and
comments are kept as lexemes. Nothing here names an application. -/
namespace SqlLexer

open Cuts

inductive CharClass
  | space | digit | letter | quote | doubleQuote | dollar | dot | colon | punctuation
  | operator | other
  deriving DecidableEq

def classOf (c : Char) : CharClass :=
  if c ∈ [' ', '\t', '\n', '\r', '\x0b', '\x0c'] then .space
  else if c.isDigit then .digit
  else if c.isAlpha ∨ c = '_' ∨ 128 ≤ c.toNat then .letter
  else if c = '\'' then .quote
  else if c = '"' then .doubleQuote
  else if c = '$' then .dollar
  else if c = '.' then .dot
  else if c = ':' then .colon
  else if c ∈ [',', '(', ')', '[', ']', ';'] then .punctuation
  else if c ∈ "~!@#^&|?+-*/%<>=".toList ∨ c = Char.ofNat 96 then .operator
  else .other

def isSpace (c : Char) : Bool := classOf c == .space

def isNewline (c : Char) : Bool := c == '\n' || c == '\r'

def isOperator (c : Char) : Bool := classOf c == .operator

/-- The letters of numbers and of the tags of dollar-quoted strings. -/
def isLetter (c : Char) : Bool := classOf c == .letter || classOf c == .digit

/-- The letters of identifiers behind the first. -/
def inWord (c : Char) : Bool := isLetter c || classOf c == .dollar

/-- How backslashes and doubled quotes are read in a string constant. -/
inductive StringStyle
  | plain | escape | bits
  deriving DecidableEq

inductive Kind
  | blank | lineComment | blockComment | word | quotedName | string (style : StringStyle)
  | dollarString | number | parameter | special | operator
  deriving DecidableEq

structure Lexeme where
  kind : Kind
  text : List Char
  deriving DecidableEq

/-- What a letter starts: a prefixed constant, a prefixed identifier, or a word. -/
def wordKind (c : Char) : List Char → Kind
  | '\'' :: _ =>
    if c ∈ ['e', 'E'] then .string .escape
    else if c ∈ ['b', 'B', 'x', 'X'] then .string .bits
    else if c ∈ ['n', 'N'] then .string .plain
    else .word
  | '&' :: '\'' :: _ => if c ∈ ['u', 'U'] then .string .plain else .word
  | '&' :: '"' :: _ => if c ∈ ['u', 'U'] then .quotedName else .word
  | _ => .word

/-- The kind of the lexeme that a text starts with. -/
def kindOf : List Char → Option Kind
  | [] => none
  | c :: rest =>
    match classOf c with
    | .space => some .blank
    | .digit => some .number
    | .letter => some (wordKind c rest)
    | .quote => some (.string .plain)
    | .doubleQuote => some .quotedName
    | .dollar => if rest.head?.any Char.isDigit then some .parameter else some .dollarString
    | .dot => if rest.head?.any Char.isDigit then some .number else some .special
    | .colon => some .special
    | .punctuation => some .special
    | .operator =>
      if c = '-' ∧ rest.head? = some '-' then some .lineComment
      else if c = '/' ∧ rest.head? = some '*' then some .blockComment
      else some .operator
    | .other => none

/-- A comment between `/*` and `*/`, with the comments that it contains. -/
def blockRest : Nat → List Char → Option (List Char)
  | depth, '/' :: '*' :: rest => blockRest (depth + 1) rest
  | 0, '*' :: '/' :: rest => some rest
  | depth + 1, '*' :: '/' :: rest => blockRest depth rest
  | depth, _ :: rest => blockRest depth rest
  | _, [] => none

/-- An identifier in double quotes. -/
def nameRest : List Char → Option (List Char)
  | '"' :: '"' :: rest => nameRest rest
  | '"' :: rest => some rest
  | _ :: rest => nameRest rest
  | [] => none

inductive Gap
  | blank (newline : Bool) | dash | comment

/-- The text behind the quote that reopens a constant: blanks and line comments with a newline
stand before it. -/
def behindGap : Gap → List Char → Option (List Char)
  | _, [] => none
  | .blank newline, c :: rest =>
    if isNewline c then behindGap (.blank true) rest
    else if isSpace c then behindGap (.blank newline) rest
    else if c = '-' then behindGap .dash rest
    else if c = '\'' ∧ newline = true then some rest
    else none
  | .dash, c :: rest => if c = '-' then behindGap .comment rest else none
  | .comment, c :: rest =>
    if isNewline c then behindGap (.blank true) rest else behindGap .comment rest

/-- The text in which a constant goes on behind its closing quote. -/
def continued (style : StringStyle) (text : List Char) : Option (List Char) :=
  if text.head? = some '\'' then if style = .bits then none else some text.tail
  else behindGap (.blank false) text

/-- A string constant, while `skip` characters are passed over. -/
def stringFrom (style : StringStyle) : Nat → List Char → Option (List Char)
  | _, [] => none
  | skip + 1, _ :: rest => stringFrom style skip rest
  | 0, c :: rest =>
    if c = '\\' ∧ style = .escape then stringFrom style 1 rest
    else if c = '\'' then
      match continued style rest with
      | some inside => stringFrom style (rest.length - inside.length) rest
      | none => some rest
    else stringFrom style 0 rest

/-- A string between `$tag$` and the next `$tag$`. -/
def dollarRest (text : List Char) : Option (List Char) :=
  let tag := text.takeWhile isLetter
  match text.dropWhile isLetter with
  | '$' :: body => (cutWord ('$' :: (tag ++ ['$'])) body).map (fun cut => cut.2)
  | _ => none

/-- Digits, where a single underscore may stand between two. -/
def isDigits (digit : Char → Bool) : List Char → Bool
  | [] => false
  | [c] => digit c
  | c :: '_' :: rest => digit c && isDigits digit rest
  | c :: rest => digit c && isDigits digit rest

def isMark (c : Char) : Bool := c == 'e' || c == 'E'

def isSign (c : Char) : Bool := c == '+' || c == '-'

def isExponent : List Char → Bool
  | [] => true
  | mark :: exponent =>
    isMark mark && isDigits Char.isDigit (if exponent.head?.any isSign then exponent.tail
      else exponent)

def isMantissa (text : List Char) : Bool :=
  match cutFirst '.' text with
  | none => isDigits Char.isDigit text
  | some (whole, fraction) =>
    (isDigits Char.isDigit whole && (fraction == [] || isDigits Char.isDigit fraction)) ||
      (whole == [] && isDigits Char.isDigit fraction)

def isOctal (c : Char) : Bool := '0' ≤ c && c ≤ '7'

def isBinary (c : Char) : Bool := c == '0' || c == '1'

def isRadix : List Char → Bool
  | '0' :: mark :: digits =>
    let digits := if digits.head? = some '_' then digits.tail else digits
    if mark = 'x' ∨ mark = 'X' then isDigits Char.isHexDigit digits
    else if mark = 'o' ∨ mark = 'O' then isDigits isOctal digits
    else if mark = 'b' ∨ mark = 'B' then isDigits isBinary digits
    else false
  | _ => false

def isNumber (text : List Char) : Bool :=
  isRadix text ||
    (isMantissa (text.takeWhile (!isMark ·)) && isExponent (text.dropWhile (!isMark ·)))

/-- A dot that is not the first of two. -/
def startsFraction (text : List Char) : Bool :=
  text.head? == some '.' && text.tail.head? != some '.'

def isPlain (c : Char) : Bool := c.isDigit || c == '_'

/-- The letters of a number up to a sign, and what follows them. -/
def mantissa (text : List Char) : List Char × List Char :=
  let whole := text.takeWhile isLetter
  let behind := text.dropWhile isLetter
  if whole.all isPlain = true ∧ startsFraction behind = true then
    (whole ++ '.' :: behind.tail.takeWhile isLetter, behind.tail.dropWhile isLetter)
  else (whole, behind)

/-- All letters that stand together with a number belong to it, so that `12ab` is refused. The
sign of an exponent stands where the letters before it are no number of their own. -/
def numberRest (text : List Char) : Option (List Char) :=
  let cut := mantissa text
  if isNumber cut.1 then some cut.2
  else
    match cut.2 with
    | [] => none
    | sign :: rest =>
      if isSign sign = true ∧ isNumber (cut.1 ++ sign :: rest.takeWhile isLetter) = true then
        some (rest.dropWhile isLetter)
      else none

/-- An operator ends where a comment begins. -/
def cutComments : List Char → List Char
  | [] => []
  | c :: rest =>
    if (c = '-' ∧ rest.head? = some '-') ∨ (c = '/' ∧ rest.head? = some '*') then []
    else c :: cutComments rest

/-- The characters that let an operator end with a sign. -/
def allowsSign (c : Char) : Bool := decide (c ∈ "~!@#^&|?%".toList ∨ c = Char.ofNat 96)

/-- Signs at the end of a longer operator belong to what follows. -/
def trimSigns (text : List Char) : List Char :=
  if text.any allowsSign then text else text.take 1 ++ text.tail.rdropWhile isSign

def operatorOf (run : List Char) : List Char := trimSigns (cutComments run)

def specialLength : List Char → Nat
  | '.' :: '.' :: _ => 2
  | ':' :: ':' :: _ => 2
  | ':' :: '=' :: _ => 2
  | _ => 1

/-- What follows the lexeme of the given kind that a text starts with. -/
def restOf : Kind → List Char → Option (List Char)
  | .blank, text => some (text.dropWhile isSpace)
  | .lineComment, text => some (text.dropWhile (!isNewline ·))
  | .blockComment, text => blockRest 0 (text.drop 2)
  | .word, text => some (text.dropWhile inWord)
  | .quotedName, text => nameRest ((text.dropWhile (· ≠ '"')).drop 1)
  | .string style, text => stringFrom style 0 ((text.dropWhile (· ≠ '\'')).drop 1)
  | .dollarString, text => dollarRest (text.drop 1)
  | .number, text => numberRest text
  | .parameter, text =>
    let rest := (text.drop 1).dropWhile Char.isDigit
    if rest.head?.any (fun c => classOf c == .letter) then none else some rest
  | .special, text => some (text.drop (specialLength text))
  | .operator, text => some (text.drop (operatorOf (text.takeWhile isOperator)).length)

/-- The first lexeme of a text, and what follows it. -/
def next (text : List Char) : Option (Lexeme × List Char) :=
  match kindOf text with
  | none => none
  | some kind =>
    (restOf kind text).map (fun rest => (⟨kind, text.take (text.length - rest.length)⟩, rest))

/-- The lexemes of a text, while `skip` characters still belong to the one before. -/
def lexFrom : Nat → List Char → Option (List Lexeme)
  | _, [] => some []
  | skip + 1, _ :: rest => lexFrom skip rest
  | 0, c :: rest =>
    match next (c :: rest) with
    | none => none
    | some (lexeme, _) => (lexFrom (lexeme.text.length - 1) rest).map (lexeme :: ·)

def lex (text : List Char) : Option (List Lexeme) := lexFrom 0 text

end SqlLexer
