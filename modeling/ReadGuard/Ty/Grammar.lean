import ReadGuard.Text.Blank
import ReadGuard.Ty.Basic

namespace ReadGuard.Ty

/-- A rule of the type grammar takes a value off the front of a text. Of several alternatives the
first that matches counts, and it is never taken back. -/
abbrev Rule (α : Type) := List Char → Option (α × List Char)

namespace Rule

variable {α β : Type}

def orElse (p q : Rule α) : Rule α := fun cs =>
  match p cs with
  | some r => some r
  | none => q cs

def andThen (p : Rule α) (q : α → Rule β) : Rule β := fun cs =>
  match p cs with
  | some (a, rest) => q a rest
  | none => none

def yield (a : α) : Rule α := fun cs => some (a, cs)

def literal (word : List Char) : Rule Unit := fun cs =>
  if word.isPrefixOf cs then some ((), cs.drop word.length) else none

def blanks : Rule Unit := fun cs => some ((), cs.dropWhile Text.isBlank)

def gap : Rule Unit := fun cs =>
  match cs with
  | [] => none
  | c :: rest => if Text.isBlank c then some ((), rest.dropWhile Text.isBlank) else none

def word (first more : Char → Bool) : Rule (List Char) := fun cs =>
  match cs with
  | [] => none
  | c :: rest => if first c then some (c :: rest.takeWhile more, rest.dropWhile more) else none

def mark (text : String) : Rule Unit :=
  (literal text.toList).andThen fun _ => blanks

def padded (p : Rule α) : Rule α :=
  p.andThen fun a => blanks.andThen fun _ => yield a

def repeated (p : Rule α) : Nat → List Char → List α × List Char
  | 0, cs => ([], cs)
  | limit + 1, cs =>
    match p cs with
    | none => ([], cs)
    | some (a, rest) =>
      let (as, rest) := repeated p limit rest
      (a :: as, rest)

/-- One or more matches with a separator between them, blanks allowed around it. Every further match
takes a separator off the text, so its length bounds their number. -/
def separated (separator : String) (p : Rule α) : Rule (List α) :=
  p.andThen fun a => fun cs =>
    let next := blanks.andThen fun _ => (mark separator).andThen fun _ => p
    let (as, rest) := repeated next cs.length cs
    some (a :: as, rest)

def optional (p : Rule α) : Rule (Option α) := fun cs =>
  match p cs with
  | some (a, rest) => some (some a, rest)
  | none => some (none, cs)

def optionalList (p : Rule (List α)) : Rule (List α) :=
  (optional p).andThen fun found => yield (found.getD [])

end Rule

namespace Grammar

open Ty.Rule

def isNameStart (c : Char) : Bool := c.isAlpha || c = '_'

def isIdentChar (c : Char) : Bool := c.isAlphanum || c = '_'

def isNameChar (c : Char) : Bool := isIdentChar c || c = '.' || c = '/' || c = '-'

def ident : Rule String :=
  (word isNameStart isIdentChar).andThen fun cs => yield (String.ofList cs)

def named : Rule Ty :=
  (word isNameStart isNameChar).andThen fun cs => yield (Ty.ofName (String.ofList cs))

def maxLengthDigits : Nat := 4300

def length : Rule Nat :=
  (word Char.isDigit Char.isDigit).andThen fun ds cs =>
    if maxLengthDigits < ds.length then none
    else some (ds.foldl (fun n d => 10 * n + (d.toNat - 48)) 0, cs)

def untyped : Rule Ty :=
  (literal "untyped".toList).andThen fun _ => gap.andThen fun _ => ident.andThen fun name =>
    yield (.basic ("untyped " ++ name))

def interface : Rule Ty :=
  (mark "interface").andThen fun _ => (literal ['\x7b']).andThen fun _ => fun cs =>
    literal ['\x7d'] (cs.dropWhile (· ≠ '\x7d')) |>.map fun r => (.interface, r.2)

section

variable (type : Rule Ty)

def pointer : Rule Ty :=
  (mark "*").andThen fun _ => type.andThen fun elem => yield (.pointer elem)

def slice : Rule Ty :=
  (mark "[").andThen fun _ => (mark "]").andThen fun _ => type.andThen fun elem =>
    yield (.slice elem)

def array : Rule Ty :=
  (mark "[").andThen fun _ => (padded length).andThen fun n => (mark "]").andThen fun _ =>
    type.andThen fun elem => yield (.array n elem)

def map : Rule Ty :=
  (mark "map").andThen fun _ => (mark "[").andThen fun _ => (padded type).andThen fun key =>
    (mark "]").andThen fun _ => type.andThen fun elem => yield (.map key elem)

def chan : Rule Ty :=
  (((literal "chan<-".toList).orElse (literal "<-chan".toList)).orElse
    (literal "chan".toList)).andThen fun _ => gap.andThen fun _ => type.andThen fun elem =>
      yield (.chan elem)

def namedField : Rule (Field Ty) :=
  ident.andThen fun name => gap.andThen fun _ => type.andThen fun t => yield ⟨name, t, false⟩

def embeddedField : Rule (Field Ty) :=
  (padded type).andThen fun t => yield ⟨t.stripPointers.name, t, true⟩

def field : Rule (Field Ty) :=
  (namedField type).orElse (embeddedField type)

def fields : Rule (List (Field Ty)) :=
  (separated ";" (field type)).andThen fun fs =>
    (optional (blanks.andThen fun _ => literal [';'])).andThen fun _ => yield fs

def struct : Rule Ty :=
  (mark "struct").andThen fun _ => (mark "\x7b").andThen fun _ =>
    (padded (optionalList (fields type))).andThen fun fs => (literal ['\x7d']).andThen fun _ =>
      yield (.struct fs)

def variadic : Rule Ty :=
  (mark "...").andThen fun _ => type.andThen fun elem => yield (.slice elem)

def namedParam : Rule Ty :=
  ident.andThen fun _ => gap.andThen fun _ => (variadic type).orElse type

def param : Rule Ty :=
  ((namedParam type).orElse (variadic type)).orElse type

def tuple : Rule (List Ty) :=
  (mark "(").andThen fun _ => (padded (optionalList (separated "," (param type)))).andThen
    fun ts => (literal [')']).andThen fun _ => yield ts

def results : Rule (List Ty) :=
  (tuple type).orElse (type.andThen fun t => yield [t])

def func : Rule Ty :=
  (mark "func").andThen fun _ => (padded (tuple type)).andThen fun params =>
    (optionalList (results type)).andThen fun rs => yield (.func params rs)

def alternatives : Rule Ty :=
  ((((((((pointer type).orElse (slice type)).orElse (array type)).orElse (map type)).orElse
    (chan type)).orElse (struct type)).orElse (func type)).orElse interface).orElse
      (untyped.orElse named)

end

def type : Nat → Rule Ty
  | 0 => fun _ => none
  | depth + 1 => alternatives (type depth)

end Grammar

inductive ReadError
  | empty (text : String)
  | malformed (text : String)
deriving DecidableEq, Repr

/-- The type that a text writes, margins aside. A type inside another starts later in the text, so
the length of the text bounds their depth. -/
def read (text : String) : Except ReadError Ty :=
  let cs := Text.trim Text.isMargin text.toList
  if cs.isEmpty then .error (.empty text)
  else
    match Grammar.type (cs.length + 1) cs with
    | some (t, []) => .ok t
    | _ => .error (.malformed text)

end ReadGuard.Ty
