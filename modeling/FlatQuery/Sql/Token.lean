import FlatQuery.Sql.Keyword
import FlatQuery.Text.Alphabetic
import FlatQuery.Text.Blank
import FlatQuery.Text.Numeric

set_option autoImplicit false

/-! # Tokens

A query text is a sequence of tokens with blank space and comments between them. `Token.scan` cuts
it into tokens; it fails only where a quotation or a comment is left open. Symbols are cut by the
longest match. -/

namespace FlatQuery.Sql

/-- A token of a query text. -/
inductive Token
  /-- A word, with the quotation mark around it if there is one. -/
  | word (text : String) (quote : Option Char)
  /-- A number, and whether the letter `L` follows it. -/
  | number (digits : String) (long : Bool)
  /-- Text in single quotes. -/
  | string (value : String)
  /-- Text in single quotes behind the letter `E`, with its escapes resolved. -/
  | escaped (value : String)
  /-- A string of hexadecimal digits. -/
  | hex (digits : String)
  /-- A literal of another kind, in its normal form. -/
  | literal (normal : String)
  /-- A place for a parameter. -/
  | placeholder (text : String)
  /-- A sign or a group of signs. -/
  | symbol (text : String)
  deriving DecidableEq, Repr, Inhabited

namespace Token

/-- The form in which a token is compared with keywords; empty for all but words without quotes. -/
def key : Token → String
  | word text none => keywordForm text
  | _ => ""

/-- The sign that a token is; empty for all other tokens. -/
def sign : Token → String
  | symbol text => text
  | _ => ""

/-! ## Quotations -/

/-- Reads up to the closing quote, where a doubled quote stands for one. Yields the text and what
follows the closing quote. -/
def quotation (quote : Char) : List Char → Option (List Char × List Char)
  | [] => none
  | c :: rest =>
    if c = quote then
      match rest with
      | d :: rest' =>
        if d = quote then (quotation quote rest').map fun (text, after) => (quote :: text, after)
        else some ([], rest)
      | [] => some ([], [])
    else (quotation quote rest).map fun (text, after) => (c :: text, after)

/-- The character that a letter stands for behind a backslash. -/
def escapedChar (c : Char) : Char :=
  if c = 'n' then '\n'
  else if c = 't' then '\t'
  else if c = 'r' then '\r'
  else c

/-- Reads up to the closing single quote, where a doubled quote stands for one and a backslash
changes the meaning of the next character. -/
def escapedQuotation : List Char → Option (List Char × List Char)
  | [] => none
  | ['\''] => some ([], [])
  | '\'' :: '\'' :: rest => (escapedQuotation rest).map fun (text, after) => ('\'' :: text, after)
  | '\'' :: rest => some ([], rest)
  | '\\' :: c :: rest =>
    (escapedQuotation rest).map fun (text, after) => (escapedChar c :: text, after)
  | c :: rest => (escapedQuotation rest).map fun (text, after) => (c :: text, after)

/-- Reads up to the mark `$$`. A lone `$` is part of the text. -/
def dollarQuotation : List Char → Option (List Char × List Char)
  | [] => none
  | '$' :: '$' :: rest => some ([], rest)
  | c :: rest => (dollarQuotation rest).map fun (text, after) => (c :: text, after)

/-- Reads up to the mark `$tag$`, which has to begin at the first `$`. -/
def taggedQuotation (mark cs : List Char) : Option (List Char × List Char) :=
  let after := cs.dropWhile (· ≠ '$')
  if mark.isPrefixOf after then some (cs.takeWhile (· ≠ '$'), after.drop mark.length) else none

/-! ## Comments -/

/-- What follows a line comment. -/
def afterLine : List Char → List Char
  | [] => []
  | c :: rest => if c = '\n' then rest else afterLine rest

/-- What follows a block comment that is open `level` times; `last` is the character before. A
comment within the comment has to be closed as well. -/
def afterBlock (level : Nat) (last : Char) : List Char → Option (List Char)
  | [] => none
  | c :: rest =>
    if last = '/' ∧ c = '*' then afterBlock (level + 1) c rest
    else if last = '*' ∧ c = '/' then
      if level = 1 then some rest else afterBlock (level - 1) c rest
    else afterBlock level c rest

/-! ## Words and numbers -/

/-- Whether a word without quotes can start with a character. -/
def startsWord (c : Char) : Bool := Text.isAlphabetic c || c == '_' || c == '#' || c == '@'

/-- Whether a word without quotes can go on with a character. -/
def continuesWord (c : Char) : Bool :=
  Text.isAlphabetic c || c.isDigit || c == '_' || c == '#' || c == '@' || c == '$'

/-- The word that begins with `head`, and what follows it. -/
def wordFrom (head rest : List Char) : Token × List Char :=
  (word (String.ofList (head ++ rest.takeWhile continuesWord)) none, rest.dropWhile continuesWord)

/-- The exponent of a number, with its letter and sign, and what follows it. -/
def exponent (cs : List Char) : List Char × List Char :=
  let cut (head rest : List Char) : List Char × List Char :=
    if (rest.head?.map Char.isDigit).getD false then
      (head ++ rest.takeWhile Char.isDigit, rest.dropWhile Char.isDigit)
    else ([], cs)
  match cs with
  | e :: s :: rest =>
    if e = 'e' ∨ e = 'E' then
      if s = '+' ∨ s = '-' then cut [e, s] rest else cut [e] (s :: rest)
    else ([], cs)
  | _ => ([], cs)

/-- The number at the beginning of a text that begins with a digit or a point, and what follows it.
A lone point is a sign. -/
def numberFrom (cs : List Char) : Token × List Char :=
  let whole := cs.takeWhile Char.isDigit
  let rest := cs.dropWhile Char.isDigit
  match whole, rest with
  | ['0'], 'x' :: rest =>
    (hex (String.ofList (rest.takeWhile Char.isHexDigit)), rest.dropWhile Char.isHexDigit)
  | _, _ =>
    let (point, rest) := match rest with
      | '.' :: rest => (['.'], rest)
      | _ => ([], rest)
    let mantissa := whole ++ point ++ rest.takeWhile Char.isDigit
    let rest := rest.dropWhile Char.isDigit
    if mantissa = ['.'] then (symbol ".", rest)
    else
      let (power, rest) := exponent rest
      let digits := String.ofList (mantissa ++ power)
      match rest with
      | 'L' :: rest => (number digits true, rest)
      | _ => (number digits false, rest)

/-! ## Signs -/

/-- The groups of signs that are one token, each before those that it begins with. -/
def signGroups : List String := [
  "<=>", "<=", "<>", "<<", "<@", ">=", ">>", "=>", "==", "!=", "!~*", "!~", "!!", "->>", "->",
  "#>>", "#>", "#-", "||/", "||", "|/", "&&", "::", ":=", "~*", "@>", "@?", "@@", "//"]

/-- The sign or group of signs at the beginning of a text, and what follows it. -/
def signFrom (c : Char) (rest : List Char) : Token × List Char :=
  match signGroups.find? (·.toList.isPrefixOf (c :: rest)) with
  | some group => (symbol group, (c :: rest).drop group.length)
  | none => (symbol (String.singleton c), rest)

/-- A token that begins with `#` or `@`: a group of signs, or a word whose second character may be
any but a blank. -/
def hashOrAt (c : Char) (rest : List Char) : Token × List Char :=
  match c, rest with
  | '@', '@' :: [] => (symbol "@@", [])
  | '@', '@' :: d :: rest =>
    if d = ' ' then (symbol "@@", d :: rest) else wordFrom ['@', '@', d] rest
  | _, [] => (symbol (String.singleton c), [])
  | _, d :: rest' =>
    match signFrom c rest with
    | (symbol group, after) =>
      if group.length = 1 ∧ d ≠ ' ' then wordFrom [c, d] rest' else (symbol group, after)
    | other => other

/-- A token that begins with `$`: a quotation between two equal marks, or a placeholder. -/
def dollarFrom (rest : List Char) : Option (Token × List Char) :=
  let continuesTag (c : Char) : Bool := Text.isAlphabetic c || Text.isNumeric c || c == '_'
  let tag := rest.takeWhile continuesTag
  match rest.dropWhile continuesTag with
  | '$' :: rest =>
    let mark := '$' :: tag ++ ['$']
    (if tag.isEmpty then dollarQuotation rest else taggedQuotation mark rest).map
      fun (text, after) =>
        (literal (String.ofList (mark ++ text ++ mark)), after)
  | rest => some (placeholder (String.ofList ('$' :: tag)), rest)

/-! ## Scanning -/

/-- The letters that a quotation may follow to form a literal of another kind, with the quotes that
may follow them. -/
def quotationLetters : List (Char × List Char) := [
  ('b', ['\'', '"']), ('B', ['\'', '"']), ('r', ['\'', '"']), ('R', ['\'', '"']), ('n', ['\'']),
  ('N', ['\''])]

/-- The letters whose quotation is a token of its own kind. -/
def lettered (c : Char) (rest : List Char) : Option (Option (Token × List Char)) :=
  match rest with
  | [] => none
  | q :: after =>
    if (c = 'e' ∨ c = 'E') ∧ q = '\'' then
      some ((escapedQuotation after).map fun (text, after) => (escaped (String.ofList text), after))
    else if (c = 'x' ∨ c = 'X') ∧ q = '\'' then
      some ((quotation q after).map fun (text, after) => (hex (String.ofList text), after))
    else if ((quotationLetters.lookup c).getD []).contains q then
      let shown := if (c = 'r' ∨ c = 'R') then '\'' else q
      some ((quotation q after).map fun (text, after) =>
        (literal (String.ofList (c.toUpper :: shown :: text ++ [shown])), after))
    else none

/-- The token at the beginning of a text that begins with neither blank space nor a comment, and
what follows it. -/
def scanToken (c : Char) (rest : List Char) : Option (Token × List Char) :=
  match lettered c rest with
  | some found => found
  | none =>
    if c = '\'' then
      (quotation c rest).map fun (text, after) => (string (String.ofList text), after)
    else if c = '"' ∨ c.toNat = 0x60 then
      (quotation c rest).map fun (text, after) => (word (String.ofList text) (some c), after)
    else if c.isDigit ∨ c = '.' then some (numberFrom (c :: rest))
    else if c = '#' ∨ c = '@' then some (hashOrAt c rest)
    else if c = '?' then
      some (placeholder (String.ofList (c :: rest.takeWhile Text.isNumeric)),
        rest.dropWhile Text.isNumeric)
    else if startsWord c then some (wordFrom [c] rest)
    else if c = '$' then dollarFrom rest
    else some (signFrom c rest)

/-- One piece of a text: a token, or blank space or a comment, and what follows it. -/
def scanPiece : List Char → Option (Option Token × List Char)
  | [] => none
  | '-' :: '-' :: rest => some (none, afterLine rest)
  | '/' :: '*' :: rest => (afterBlock 1 ' ' rest).map fun after => (none, after)
  | c :: rest =>
    if Text.isBlank c then some (none, rest)
    else (scanToken c rest).map fun (token, after) => (some token, after)

/-- The tokens of a text of at most `fuel` pieces. -/
def scanPieces : Nat → List Char → Option (List Token)
  | _, [] => some []
  | 0, _ :: _ => none
  | fuel + 1, cs => do
    let (token, rest) ← scanPiece cs
    let tokens ← scanPieces fuel rest
    return token.toList ++ tokens

/-- The tokens of a text. A text has no more pieces than characters. -/
def scan (text : String) : Option (List Token) :=
  scanPieces text.toList.length text.toList

end Token

end FlatQuery.Sql
