import TransitShapes.Json.Reader

/-! # Texts in JSON -/

namespace TransitShapes.Json.Text

open Reader

/-! ## Escapes -/

def shortEscape? : Char → Option Char
  | '"' => some '"'
  | '\\' => some '\\'
  | '/' => some '/'
  | 'b' => some '\x08'
  | 'f' => some '\x0c'
  | 'n' => some '\n'
  | 'r' => some '\r'
  | 't' => some '\t'
  | _ => none

def hexDigit? (c : Char) : Option Nat :=
  if c.isDigit then some (digitOf c)
  else if 'a' ≤ c ∧ c ≤ 'f' then some (c.toNat - 'a'.toNat + 10)
  else if 'A' ≤ c ∧ c ≤ 'F' then some (c.toNat - 'A'.toNat + 10)
  else none

def hexValue? (ds : List Char) : Option Nat :=
  ds.foldlM (fun n d => (hexDigit? d).map (16 * n + ·)) 0

def byteLength (cs : List Char) : Nat := cs.foldr (fun c length => c.utf8Size + length) 0

/-- Reads four hexadecimal digits. The text counts as ended if fewer than four bytes are left. -/
def hexEscape : Reader Nat := fun _ rest =>
  if byteLength (rest.take 4) < 4 then .error .endOfText
  else
    match hexValue? (rest.take 4) with
    | some n => .ok (n, rest.drop 4)
    | none => .error .notJson

def isLeading (n : Nat) : Bool := 0xD800 ≤ n && n ≤ 0xDBFF

def isTrailing (n : Nat) : Bool := 0xDC00 ≤ n && n ≤ 0xDFFF

/-- Reads the second half of a pair. It has to follow at once. -/
def trailingHalf : Reader Nat := do
  word ['\\', 'u']
  let n ← hexEscape
  if isTrailing n then return n else fail .notJson

/-- Reads a character by its number. One beyond the first 65536 is a pair of halves, and no half may
stand alone. -/
def numberedChar : Reader Char := do
  let n ← hexEscape
  if isTrailing n then fail .notJson
  else if isLeading n then
    let low ← trailingHalf
    return Char.ofNat (0x10000 + (n - 0xD800) * 0x400 + (low - 0xDC00))
  else return Char.ofNat n

/-! ## Quoted texts -/

/-- Reads one character of a quoted text, or the quote at its end. `numbered` reads what follows
the mark of a character that is given by number. -/
def piece (numbered : Reader Char) : Reader (Option Char) := do
  match ← next .endOfText with
  | '"' => return none
  | '\\' =>
    match ← next .endOfText with
    | 'u' => some <$> numbered
    | c =>
      match shortEscape? c with
      | some d => return some d
      | none => fail .notJson
  | c => if c < ' ' then fail .notJson else return some c

def pieces (numbered : Reader Char) : Nat → Reader (List Char)
  | 0 => fail .endOfText
  | fuel + 1 => do
    match ← piece numbered with
    | none => return []
    | some c => return c :: (← pieces numbered fuel)

/-- Reads a quoted text after its first quote. -/
def afterQuote : Reader String := String.ofList <$> bounded (pieces numberedChar)

/-- Passes over a quoted text after its first quote. A character given by number may be any. -/
def skipAfterQuote : Reader Unit :=
  discard <| bounded (pieces (do let _ ← hexEscape; return ' '))

end TransitShapes.Json.Text
