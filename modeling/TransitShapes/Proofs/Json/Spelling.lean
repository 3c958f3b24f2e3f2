import TransitShapes.Json.Record
import TransitShapes.Proofs.Json.Reads

/-! # Spelled texts

A text in JSON can be spelled in many ways: every character may stand for itself, behind a mark, or
by its number. All of them read as the same text.
-/

namespace TransitShapes.Json

open Reader Text

/-! ## Spellings -/

/-- Four hexadecimal digits and the number that they give. -/
def IsHex (n : Nat) (digits : List Char) : Prop := digits.length = 4 ∧ hexValue? digits = some n

/-- One character inside quotes. -/
inductive SpellsChar : Char → List Char → Prop where
  | plain {c : Char} : ¬ c < ' ' → c ≠ '"' → c ≠ '\\' → SpellsChar c [c]
  | short {mark c : Char} : shortEscape? mark = some c → SpellsChar c ['\\', mark]
  | numbered {n : Nat} {digits : List Char} : IsHex n digits → isLeading n = false →
      isTrailing n = false → SpellsChar (Char.ofNat n) ('\\' :: 'u' :: digits)
  | pair {high low : Nat} {first second : List Char} : IsHex high first → IsHex low second →
      isLeading high = true → isTrailing low = true →
      SpellsChar (Char.ofNat (0x10000 + (high - 0xD800) * 0x400 + (low - 0xDC00)))
        ('\\' :: 'u' :: first ++ '\\' :: 'u' :: second)

inductive SpellsChars : List Char → List Char → Prop where
  | nil : SpellsChars [] []
  | cons {c : Char} {text part spelled : List Char} : SpellsChar c part →
      SpellsChars text spelled → SpellsChars (c :: text) (part ++ spelled)

/-- A text as it may stand between quotes. -/
def Spells (text spelled : String) : Prop := SpellsChars text.toList spelled.toList

/-- A text with nothing in it that has to be spelled in another way. -/
def IsPlain (text : String) : Prop := ∀ c ∈ text.toList, ¬ c < ' ' ∧ c ≠ '"' ∧ c ≠ '\\'

instance (text : String) : Decidable (IsPlain text) :=
  -- by name, for all characters there are can be tried as well
  List.decidableBAll _ _

theorem IsPlain.spells {text : String} (h : IsPlain text) : Spells text text := by
  unfold IsPlain at h
  unfold Spells
  generalize text.toList = cs at h ⊢
  induction cs with
  | nil => exact .nil
  | cons c cs ih =>
    obtain ⟨hcontrol, hquote, hmark⟩ := h c List.mem_cons_self
    exact .cons (.plain hcontrol hquote hmark) (ih fun d hd => h d (List.mem_cons_of_mem c hd))

/-! ## Reading one character -/

variable {after : List Char → Prop}

theorem length_le_byteLength (cs : List Char) : cs.length ≤ byteLength cs := by
  induction cs with
  | nil => exact Nat.le_refl 0
  | cons c cs ih =>
    have := c.utf8Size_pos
    change cs.length + 1 ≤ c.utf8Size + byteLength cs
    omega

theorem IsHex.reads {n : Nat} {digits : List Char} (h : IsHex n digits) :
    Reads after hexEscape digits (.ok n) := by
  intro length rest _ _
  obtain ⟨hlength, hvalue⟩ := h
  have hbytes := length_le_byteLength digits
  unfold hexEscape
  rw [List.take_left' hlength, List.drop_left' hlength, if_neg (by omega), hvalue]
  rfl

theorem reads_numberedChar {n : Nat} {digits : List Char} (h : IsHex n digits)
    (hleading : isLeading n = false) (htrailing : isTrailing n = false) :
    Reads after numberedChar digits (.ok (Char.ofNat n)) := by
  refine .finish h.reads ?_
  simp only [hleading, htrailing]
  exact .pure _

theorem reads_trailingHalf {n : Nat} {digits : List Char} (h : IsHex n digits)
    (htrailing : isTrailing n = true) :
    Reads after trailingHalf ('\\' :: 'u' :: digits) (.ok n) := by
  refine .seq (.word ['\\', 'u']) (.finish h.reads ?_)
  rw [if_pos htrailing]
  exact .pure n

theorem reads_numberedChar_pair {high low : Nat} {first second : List Char}
    (hfirst : IsHex high first) (hsecond : IsHex low second) (hleading : isLeading high = true)
    (htrailing : isTrailing low = true) :
    Reads after numberedChar (first ++ '\\' :: 'u' :: second)
      (.ok (Char.ofNat (0x10000 + (high - 0xD800) * 0x400 + (low - 0xDC00)))) := by
  have hhigh : isTrailing high = false := by
    simp only [isLeading, isTrailing, Bool.and_eq_true, Bool.and_eq_false_iff,
      decide_eq_true_eq, decide_eq_false_iff_not] at *
    omega
  refine .seq hfirst.reads ?_
  simp only [hhigh, hleading]
  exact .finish (reads_trailingHalf hsecond htrailing) (.pure _)

section
variable {numbered : Reader Char}

theorem reads_piece_plain {c : Char} (hcontrol : ¬ c < ' ') (hquote : c ≠ '"') (hmark : c ≠ '\\') :
    Reads after (piece numbered) [c] (.ok (some c)) := by
  refine .seq (.next _ c) ?_
  split
  · exact absurd rfl hquote
  · exact absurd rfl hmark
  · rw [if_neg hcontrol]
    exact .pure _

theorem reads_piece_short {mark c : Char} (h : shortEscape? mark = some c) :
    Reads after (piece numbered) ['\\', mark] (.ok (some c)) := by
  refine .seq (.next _ '\\') (.seq (.next _ mark) ?_)
  split
  · cases h
  · rw [h]
    exact .pure _

theorem reads_piece_numbered {digits : List Char} {c : Char}
    (h : Reads after numbered digits (.ok c)) :
    Reads after (piece numbered) ('\\' :: 'u' :: digits) (.ok (some c)) :=
  .seq (.next _ '\\') (.seq (.next _ 'u') (h.map some))

/-! ## Reading a quoted text -/

/-- What is read up to the quote as this text, with any fuel above the number of its characters. -/
def ReadsPieces (numbered : Reader Char) (spelled text : List Char) : Prop :=
  ∀ fuel, spelled.length < fuel →
    Reads Anywhere (pieces numbered fuel) (spelled ++ ['"']) (.ok text)

namespace ReadsPieces

theorem nil : ReadsPieces numbered [] [] := by
  intro fuel hfuel
  obtain ⟨fuel, rfl⟩ := Nat.exists_eq_add_of_lt hfuel
  have hquote : Reads Anywhere (piece numbered) ['"'] (.ok none) := .seq (.next _ '"') (.pure none)
  exact hquote.seq (.pure [])

theorem cons {c : Char} {part spelled text : List Char}
    (hpart : Reads Anywhere (piece numbered) part (.ok (some c))) (hpos : 0 < part.length)
    (h : ReadsPieces numbered spelled text) :
    ReadsPieces numbered (part ++ spelled) (c :: text) := by
  intro fuel hfuel
  rw [List.length_append] at hfuel
  obtain ⟨fuel, rfl⟩ : ∃ n, fuel = n + 1 := ⟨fuel - 1, by omega⟩
  rw [List.append_assoc]
  exact .seq hpart ((h fuel (by omega)).returns (c :: ·))

theorem reads {spelled text : List Char} (h : ReadsPieces numbered spelled text) :
    Reads after (bounded (pieces numbered)) (spelled ++ ['"']) (.ok text) := by
  refine .bounded fun fuel hfuel => (h fuel ?_).anywhere
  rw [List.length_append] at hfuel
  exact Nat.lt_of_succ_lt hfuel

end ReadsPieces

end

theorem SpellsChar.pos {c : Char} {part : List Char} (h : SpellsChar c part) : 0 < part.length := by
  cases h <;> simp

theorem SpellsChar.reads {c : Char} {part : List Char} (h : SpellsChar c part) :
    Reads after (piece numberedChar) part (.ok (some c)) := by
  cases h with
  | plain hcontrol hquote hmark => exact reads_piece_plain hcontrol hquote hmark
  | short h => exact reads_piece_short h
  | numbered h hleading htrailing =>
    exact reads_piece_numbered (reads_numberedChar h hleading htrailing)
  | pair hfirst hsecond hleading htrailing =>
    exact reads_piece_numbered (reads_numberedChar_pair hfirst hsecond hleading htrailing)

theorem SpellsChars.reads {text spelled : List Char} (h : SpellsChars text spelled) :
    ReadsPieces numberedChar spelled text := by
  induction h with
  | nil => exact .nil
  | cons hpart _ ih => exact .cons hpart.reads hpart.pos ih

theorem Spells.reads_afterQuote {text spelled : String} (h : Spells text spelled) :
    Reads after afterQuote (spelled.toList ++ ['"']) (.ok text) := by
  have hread : Reads after afterQuote (spelled.toList ++ ['"']) (.ok (String.ofList text.toList)) :=
    (SpellsChars.reads h).reads.map String.ofList
  rwa [String.ofList_toList] at hread

/-! ## Passing over a quoted text -/

/-- What `skipAfterQuote` takes behind the mark of a character that is given by number. -/
def skipNumber : Reader Char := do let _ ← hexEscape; return ' '

theorem IsHex.reads_piece_skip {n : Nat} {digits : List Char} (h : IsHex n digits) :
    Reads after (piece skipNumber) ('\\' :: 'u' :: digits) (.ok (some ' ')) :=
  reads_piece_numbered (h.reads.returns fun _ => ' ')

theorem SpellsChar.exists_skip {c : Char} {part spelled text : List Char} (h : SpellsChar c part)
    (hspelled : ReadsPieces skipNumber spelled text) :
    ∃ text', ReadsPieces skipNumber (part ++ spelled) text' := by
  cases h with
  | plain hcontrol hquote hmark =>
    exact ⟨_, .cons (reads_piece_plain hcontrol hquote hmark) Nat.one_pos hspelled⟩
  | short h => exact ⟨_, .cons (reads_piece_short h) (Nat.succ_pos _) hspelled⟩
  | numbered h => exact ⟨_, .cons h.reads_piece_skip (Nat.succ_pos _) hspelled⟩
  | pair hfirst hsecond =>
    -- the halves are passed over one after the other
    rw [List.append_assoc]
    exact ⟨_, .cons hfirst.reads_piece_skip (Nat.succ_pos _)
      (.cons hsecond.reads_piece_skip (Nat.succ_pos _) hspelled)⟩

theorem SpellsChars.exists_skip {text spelled : List Char} (h : SpellsChars text spelled) :
    ∃ text', ReadsPieces skipNumber spelled text' := by
  induction h with
  | nil => exact ⟨[], .nil⟩
  | cons hpart _ ih =>
    obtain ⟨_, hspelled⟩ := ih
    exact hpart.exists_skip hspelled

theorem Spells.reads_skipAfterQuote {text spelled : String} (h : Spells text spelled) :
    Reads after skipAfterQuote (spelled.toList ++ ['"']) (.ok ()) := by
  obtain ⟨_, hread⟩ := SpellsChars.exists_skip h
  exact hread.reads.map fun _ => ()

/-! ## Values that nobody asks for -/

/-- A text in quotes. -/
def IsQuoted (text value : String) : Prop := ∃ spelled, Spells text spelled ∧ value = quoted spelled

/-- A value that is `null`, a truth value or a text. -/
inductive Unasked : String → Prop where
  | null : Unasked "null"
  | true : Unasked "true"
  | false : Unasked "false"
  | text {text value : String} : IsQuoted text value → Unasked value

theorem IsQuoted.toList_eq {text value : String} (h : IsQuoted text value) :
    ∃ spelled, Spells text spelled ∧ value.toList = '"' :: (spelled.toList ++ ['"']) := by
  obtain ⟨spelled, hspells, rfl⟩ := h
  exact ⟨spelled, hspells, by simp [quoted]⟩

theorem IsQuoted.reads_text {text value : String} (h : IsQuoted text value) :
    Reads after Json.text value.toList (.ok text) := by
  obtain ⟨spelled, hspells, hvalue⟩ := h.toList_eq
  rw [hvalue]
  exact .peek_cons (by decide) (.seq (.drop '"') hspells.reads_afterQuote)

theorem isQuoted_quoted {text : String} (h : IsPlain text) : IsQuoted text (quoted text) :=
  ⟨text, h.spells, rfl⟩

theorem reads_scalar_quoted (care : Care) {text spelled : String} (h : Spells text spelled) :
    Reads after (scalar care '"') ('"' :: (spelled.toList ++ ['"'])) (.ok none) := by
  refine .seq (.drop '"') ?_
  cases care with
  | read =>
    exact (h.reads_afterQuote.map fun _ => ()).returns fun _ => none
  | pass =>
    exact h.reads_skipAfterQuote.returns fun _ => none

/-- A value that starts like this is no array and no object. -/
def StartsScalar (c : Char) : Prop := isBlank c = false ∧ c ≠ '[' ∧ c ≠ '\x7b'

instance (c : Char) : Decidable (StartsScalar c) := inferInstanceAs (Decidable (_ ∧ _))

theorem StartsScalar.dropWhile_eq {c : Char} (hc : StartsScalar c) (cs : List Char) :
    (c :: cs).dropWhile isBlank = c :: cs :=
  List.dropWhile_cons_of_neg (by simp [hc.1])

section
variable {care : Care} {c : Char} {cs cs' : List Char} {result : Except Cause (Option Number)}

theorem reads_valueAround {inner : Option (Reader Unit)} (hcs : cs.dropWhile isBlank = c :: cs')
    (hc : StartsScalar c) (h : Reads after (scalar care c) (c :: cs') result) :
    Reads after (valueAround care inner) cs result := by
  obtain ⟨_, harray, hobject⟩ := hc
  refine .peek hcs ?_
  split <;> simp_all

theorem reads_anyValue (levels : Nat) (hcs : cs.dropWhile isBlank = c :: cs')
    (hc : StartsScalar c) (h : Reads after (scalar care c) (c :: cs') result) :
    Reads after (anyValue care levels) cs result := by
  cases levels with
  | zero => exact reads_valueAround hcs hc h
  | succ => exact reads_valueAround hcs hc h

end

theorem Unasked.reads_scalar (after : List Char → Prop) (care : Care) {value : String}
    (h : Unasked value) :
    ∃ c cs, value.toList = c :: cs ∧ StartsScalar c ∧
      Reads after (scalar care c) (c :: cs) (.ok none) := by
  have hword : ∀ w : List Char,
      Reads after (do word w; return none : Reader (Option Number)) w (.ok none) :=
    fun w => .returns (fun _ => none) (.word w)
  cases h with
  | null => exact ⟨'n', _, rfl, by decide, hword ['n', 'u', 'l', 'l']⟩
  | true => exact ⟨'t', _, rfl, by decide, hword ['t', 'r', 'u', 'e']⟩
  | false => exact ⟨'f', _, rfl, by decide, hword ['f', 'a', 'l', 's', 'e']⟩
  | text h =>
    obtain ⟨spelled, hspells, hvalue⟩ := h.toList_eq
    exact ⟨'"', _, hvalue, by decide, reads_scalar_quoted care hspells⟩

theorem Unasked.reads_anyValue (care : Care) (levels : Nat) {value : String} (h : Unasked value) :
    Reads after (anyValue care levels) value.toList (.ok none) := by
  obtain ⟨c, cs, hvalue, hc, hread⟩ := h.reads_scalar after care
  rw [hvalue]
  exact Json.reads_anyValue levels (hc.dropWhile_eq cs) hc hread

theorem Unasked.reads_skipValue {value : String} (h : Unasked value) :
    Reads after skipValue value.toList (.ok ()) :=
  .bounded fun fuel _ => .map (fun _ => ()) (h.reads_anyValue .pass fuel)

end TransitShapes.Json
