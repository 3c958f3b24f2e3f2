/-! # Reading from the front of a text

A reader takes characters from the front of a text and leaves the rest. The first problem ends it,
so of two faults in a text the one farther to the left is reported.
-/

namespace TransitShapes.Json

inductive Cause where
  /-- The text is not JSON, or holds a number or a nesting that is too large. -/
  | notJson
  /-- The text is JSON, but not of what was asked for. -/
  | wrongShape
  | endOfText
deriving Repr, DecidableEq

def Cause.message : Cause → String
  | notJson => "syntax"
  | wrongShape => "data"
  | endOfText => "eof"

def digitOf (c : Char) : Nat := c.toNat - '0'.toNat

/-- A reader is told the length of the whole text, which no part of it exceeds. -/
abbrev Reader := ReaderT Nat (StateT (List Char) (Except Cause))

namespace Reader

variable {α : Type}

def fail (cause : Cause) : Reader α := fun _ _ => .error cause

def isBlank (c : Char) : Bool := c = ' ' || c = '\n' || c = '\t' || c = '\r'

/-- The next character, which stays. -/
def look : Reader (Option Char) := fun _ rest => .ok (rest.head?, rest)

/-- The next character after blanks. The blanks are taken and the character stays. -/
def peek : Reader (Option Char) := fun _ rest =>
  let rest := rest.dropWhile isBlank
  .ok (rest.head?, rest)

def drop : Reader Unit := fun _ rest => .ok ((), rest.tail)

def next (atEnd : Cause) : Reader Char
  | _, [] => .error atEnd
  | _, c :: rest => .ok (c, rest)

def takeWhile (p : Char → Bool) : Reader (List Char) := fun _ rest =>
  .ok (rest.takeWhile p, rest.dropWhile p)

def accept (c : Char) : Reader Bool
  | _, [] => .ok (false, [])
  | _, d :: rest => if d = c then .ok (true, rest) else .ok (false, d :: rest)

def word : List Char → Reader Unit
  | [] => return ()
  | c :: rest => do
    if (← next .endOfText) = c then word rest else fail .notJson

/-- A reader that may go on for as many steps as the text has characters, and one more. -/
def bounded (r : Nat → Reader α) : Reader α := fun length rest => r (length + 1) length rest

/-- Reads a whole text. Only blanks may follow the value. -/
def run (r : Reader α) (text : String) : Except Cause α := do
  let chars := text.toList
  let (a, rest) ← r chars.length chars
  match rest.dropWhile isBlank with
  | [] => return a
  | _ :: _ => throw .notJson

end Reader

end TransitShapes.Json
