import ReadGuard.Sexp.Basic

namespace ReadGuard.Sexp

inductive Bracket
  | round
  | square
deriving DecidableEq, Repr

def Bracket.closer : Bracket → Char
  | .round => ')'
  | .square => ']'

def Bracket.ofOpener? : Char → Option Bracket
  | '(' => some .round
  | '[' => some .square
  | _ => none

def isCloser (c : Char) : Bool := c = ')' || c = ']'

def isGap (c : Char) : Bool :=
  c.toNat = 32 || (9 ≤ c.toNat && c.toNat ≤ 13)

def endsAtom (c : Char) : Bool :=
  isGap c || isCloser c || (Bracket.ofOpener? c).isSome || c = '"' || c = ';'

inductive Token
  | opening (bracket : Bracket)
  /-- A closing bracket, with the text that starts at it. -/
  | closing (found : Char) (rest : List Char)
  /-- An apostrophe, with its place in the text. -/
  | apostrophe (place : Nat)
  | item (value : Sexp)
  /-- The text ends inside a string. -/
  | openString
  /-- The text ends after a backslash. -/
  | openEscape
deriving Repr

/-- What the characters read so far belong to; the text of a string or an atom is reversed. -/
inductive Mode
  | between
  | comment
  | inString (text : List Char)
  | inStringEscape (text : List Char)
  | inAtom (text : List Char)
  | inAtomEscape (text : List Char)

def stringEscape (c : Char) : List Char :=
  if c = '\\' || c = '"' then [c]
  else if c = 'b' then [Char.ofNat 8]
  else if c = 'f' then [Char.ofNat 12]
  else if c = 'n' then ['\n']
  else if c = 'r' then ['\r']
  else if c = 't' then ['\t']
  else [c, '\\']

def atomEscape (c : Char) : List Char :=
  if ("\\'`\"()[] ,?;#".toList).contains c then [c] else [c, '\\']

def atomToken (text : List Char) : Token :=
  .item (ofAtom text.reverse)

def stringToken (text : List Char) : Token :=
  .item (.str (String.ofList text.reverse))

def startAt (place : Nat) (c : Char) (rest : List Char) : List Token × Mode :=
  if isGap c then ([], .between)
  else if c = ';' then ([], .comment)
  else if c = '"' then ([], .inString [])
  else if c = '\'' then ([.apostrophe place], .between)
  else if isCloser c then ([.closing c (c :: rest)], .between)
  else
    match Bracket.ofOpener? c with
    | some b => ([.opening b], .between)
    | none => if c = '\\' then ([], .inAtomEscape []) else ([], .inAtom [c])

def tokensFrom : Nat → Mode → List Char → List Token
  | _, .between, [] => []
  | _, .comment, [] => []
  | _, .inString _, [] => [.openString]
  | _, .inStringEscape _, [] => [.openEscape]
  | _, .inAtom text, [] => [atomToken text]
  | _, .inAtomEscape _, [] => [.openEscape]
  | place, .between, c :: rest =>
    let (done, mode) := startAt place c rest
    done ++ tokensFrom (place + 1) mode rest
  | place, .comment, c :: rest =>
    tokensFrom (place + 1) (if c = '\n' then .between else .comment) rest
  | place, .inString text, c :: rest =>
    if c = '"' then stringToken text :: tokensFrom (place + 1) .between rest
    else if c = '\\' then tokensFrom (place + 1) (.inStringEscape text) rest
    else tokensFrom (place + 1) (.inString (c :: text)) rest
  | place, .inStringEscape text, c :: rest =>
    tokensFrom (place + 1) (.inString (stringEscape c ++ text)) rest
  | place, .inAtom text, c :: rest =>
    if endsAtom c then
      let (done, mode) := startAt place c rest
      atomToken text :: done ++ tokensFrom (place + 1) mode rest
    else if c = '\\' then tokensFrom (place + 1) (.inAtomEscape text) rest
    else tokensFrom (place + 1) (.inAtom (c :: text)) rest
  | place, .inAtomEscape text, c :: rest =>
    tokensFrom (place + 1) (.inAtom (atomEscape c ++ text)) rest

def tokens (text : String) : List Token :=
  tokensFrom 0 .between text.toList

end ReadGuard.Sexp
