import Mathlib.Data.List.Infix

namespace SqlText

section Search

variable {Char' : Type*} [DecidableEq Char'] (pattern : List Char')

-- Every place of the pattern, from left to right, with something else in it. The number tells how
-- much of the last place is still to be passed over.
def replaceFrom (replacement : List Char') : Nat → List Char' → List Char'
  | _, [] => []
  | passed + 1, _ :: rest => replaceFrom replacement passed rest
  | 0, c :: rest =>
    if pattern.isPrefixOf (c :: rest) then
      replacement ++ replaceFrom replacement (pattern.length - 1) rest
    else c :: replaceFrom replacement 0 rest

-- What stands in front of the first place of the pattern, or everything.
def beforeFirst : List Char' → List Char'
  | [] => []
  | c :: rest => if pattern.isPrefixOf (c :: rest) then [] else c :: beforeFirst rest

end Search

section Tokens

inductive Token where
  | word (chars : List Char)
  | symbol (c : Char)
  | quoted (chars : List Char)

-- Where a reader of a statement is: between words, in one, behind a first '-', in a comment up to
-- the end of the line, or in a text between quotes.
inductive Place where
  | blank
  | inWord (read : List Char)
  | dash
  | comment
  | inQuotes (read : List Char)

def isWordChar (c : Char) : Bool :=
  c.isAlphanum || c == '_'

-- A character that does not go on with a word.
def outside (c : Char) : Place × List Token :=
  if c.isWhitespace then (.blank, [])
  else if c == '-' then (.dash, [])
  else if c == '\'' then (.inQuotes [], [])
  else if isWordChar c then (.inWord [c], [])
  else (.blank, [.symbol c])

def Place.read (place : Place) (c : Char) : Place × List Token :=
  match place with
  | .blank => outside c
  | .inWord read =>
    if isWordChar c then (.inWord (read ++ [c]), [])
    else
      let (next, found) := outside c
      (next, .word read :: found)
  | .dash =>
    if c == '-' then (.comment, [])
    else
      let (next, found) := outside c
      (next, .symbol '-' :: found)
  | .comment => if c == '\n' then (.blank, []) else (.comment, [])
  | .inQuotes read => if c == '\'' then (.blank, [.quoted read]) else (.inQuotes (read ++ [c]), [])

def Place.finish : Place → List Token
  | .inWord read => [.word read]
  | .dash => [.symbol '-']
  | _ => []

def tokensFrom : Place → List Char → List Token
  | place, [] => place.finish
  | place, c :: rest =>
    let (next, found) := place.read c
    found ++ tokensFrom next rest

def tokens (text : List Char) : List Token :=
  tokensFrom .blank text

-- The names in front of a dot.
def qualifiers : List Token → List (List Char)
  | .word name :: .symbol '.' :: rest => name :: qualifiers (.symbol '.' :: rest)
  | _ :: rest => qualifiers rest
  | [] => []

def isName : Token → Bool
  | .word _ => true
  | .symbol c => c == '.'
  | .quoted _ => false

-- SELECT f(…) a.b: a qualified column right behind a call, with no comma between them.
def columnAfterCall : List Token → Bool
  | .word select :: .word _ :: .symbol '(' :: rest =>
    select == "SELECT".toList &&
      match rest.dropWhile isName with
      | .symbol ')' :: .word _ :: .symbol '.' :: .word (c :: _) :: _ => c.isAlpha
      | _ => false
  | _ => false

end Tokens

end SqlText
