import TransitShapes.Proofs.Json.Object

/-! # Records from objects in any order -/

namespace TransitShapes.Json

open Reader

variable {σ α : Type} {after : List Char → Prop}

theorem reads_colon : Reads after colon [':'] (.ok ()) := .peek_cons (by decide) (.drop ':')

theorem reads_closeObject : Reads after closeObject ['\x7d'] (.ok ()) :=
  .peek_cons (by decide) (.drop '\x7d')

theorem reads_memberChars {r : String → Reader α} {w : String × String} {name : String}
    {result : Except Cause α} (hname : Spells name w.1)
    (h : Reads EndsValue (r name) (':' :: w.2.toList) result) :
    Reads EndsValue (Text.afterQuote >>= r) (memberChars w) result := by
  have hsplit : memberChars w = (w.1.toList ++ ['"']) ++ (':' :: w.2.toList) := by
    simp [memberChars]
  rw [hsplit]
  exact .seq hname.reads_afterQuote h

/-- What is not there yet is put in. -/
def Change.once (isSet : σ → Bool) (put : Change σ) : Change σ :=
  fun s => if isSet s then .error .wrongShape else put s

namespace RecordFormat

variable {f : RecordFormat σ α}

def names (f : RecordFormat σ α) : List String := f.fields.flatMap (·.names)

theorem field?_eq_none {name : String} (h : name ∉ f.names) : f.field? name = none := by
  refine List.find?_eq_none.mpr fun field hfield hcontains => h ?_
  exact List.mem_flatMap.mpr ⟨field, hfield, List.contains_iff_mem.mp hcontains⟩

theorem makes_readMember {levels : Nat} {m : Member} {names : List String} {isSet : σ → Bool}
    {read : Nat → σ → Reader σ} {put : Change σ}
    (hfield : ∀ name ∈ m.names, f.field? name = some ⟨names, isSet, read⟩)
    (hvalue : ∀ value, m.IsValue value → ∀ s,
      Reads EndsValue (read levels s) value.toList (put s)) :
    MakesAsWritten id (f.readMember levels) m (.once isSet put) := by
  rintro w ⟨⟨name, hname, hspells⟩, hw⟩ s
  refine ⟨Change.once isSet put s, reads_memberChars hspells ?_, congrFun Except.map_id _⟩
  rw [hfield name hname]
  unfold Change.once
  change Reads _ (if isSet s then fail .wrongShape else (do colon; read levels s)) _ _
  split
  · exact .fail _
  · exact .seq reads_colon (hvalue _ hw s)

theorem makes_readMember_unasked {levels : Nat} {w : String × String} (h : IsUnasked f.names w) :
    Makes id (f.readMember levels) .ok (memberChars w) := by
  obtain ⟨⟨name, hunknown, hname⟩, hvalue⟩ := h
  refine fun s => ⟨.ok s, reads_memberChars hname ?_, rfl⟩
  rw [field?_eq_none hunknown]
  exact .seq reads_colon (hvalue.reads_skipValue.returns fun _ => s)

/-- The record that the fields make, if none is missing. -/
def finished (f : RecordFormat σ α) (state : σ) : Except Cause α :=
  match f.finish state with
  | some a => .ok a
  | none => .error .wrongShape

theorem reads_complete (f : RecordFormat σ α) (state : σ) :
    Reads Anywhere (f.complete state) [] (f.finished state) := by
  unfold complete finished
  cases f.finish state with
  | some a => exact .pure a
  | none => exact .fail _

theorem run_read_eq {levels : Nat} {members : List Member} {changes : List (Change σ)}
    {text : String} (h : IsObject f.names members text)
    (hmembers : List.Forall₂ (MakesAsWritten id (f.readMember levels)) members changes)
    (hcommute : changes.Pairwise Change.Commute) :
    (f.read (levels + 1)).run text = Change.all changes f.initial >>= f.finished := by
  obtain ⟨cs, result, htext, hread, hview⟩ := h.exists_makes hmembers
    (fun w hw => makes_readMember_unasked hw) hcommute f.initial
  have hresult : result = Change.all changes f.initial :=
    (congrFun Except.map_id result).symm.trans hview
  rw [← hresult]
  refine Reads.run ?_
  rw [htext]
  refine .peek_cons (by decide) (.seq (.drop '\x7b') ?_)
  refine .bind _ hread (fun _ _ => rfl) fun s _ => ?_
  have hclose : ∀ a : α, Reads Anywhere (do closeObject; return a) ['\x7d'] (.ok a) :=
    fun a => .seq reads_closeObject (.pure a)
  have hdone := Reads.bind pure (f.reads_complete s) (fun _ _ => trivial)
    fun a _ => hclose a
  rwa [List.nil_append, bind_pure] at hdone

end RecordFormat

end TransitShapes.Json
