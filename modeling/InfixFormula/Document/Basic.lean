import InfixFormula.Text.Basic

/-!
# Documents

A document is a value of the JSON data model: null, a truth value, a number, a string, an array or an
object.  An object keeps its fields in the order of the text, repeated ones included.

A text may hold numbers beyond the doubles and strings with half a surrogate pair.  They are well
formed and stand for nothing; a document has them without a value, and only a reader who needs the
value is refused.

`record?` reads a document as a record with given fields: an object that has each of them once, among
any others, or an array of just their values in order.  What was written as a record is read as one
(`record?_ofFields`).
-/

namespace InfixFormula

/-- A value of the JSON data model. -/
inductive Document where
  /-- The absent value. -/
  | null
  /-- A truth value. -/
  | bool (b : Bool)
  /-- A number, with its value if a double can hold it. -/
  | number (x : Option Float)
  /-- A string, with its text if it is one. -/
  | string (t : Option Text)
  /-- An array. -/
  | array (items : List Document)
  /-- An object; the names of its fields are strings. -/
  | object (fields : List (Option Text × Document))

namespace Document

/-- The text of a string. -/
def text? : Document → Option Text
  | string t => t
  | _ => none

/-- The value of a number. -/
def float? : Document → Option Float
  | number x => x
  | _ => none

/-- A double as a document: those that are no finite numbers have none. -/
def ofFloat (x : Float) : Document := if x.isFinite then number (some x) else null

/-- A text as a document. -/
def ofText (t : Text) : Document := string (some t)

/-- An object with the given fields. -/
def ofFields (fields : List (String × Document)) : Document :=
  object (fields.map (fun f => (some f.1.toList, f.2)))

/-- The value of the field that has the name, if there is exactly one. -/
def field? (fields : List (Option Text × Document)) (name : Text) : Option Document :=
  match fields.filter (fun f => f.1 == some name) with
  | [f] => some f.2
  | _ => none

/-- The values of the named fields of a record. -/
def record? (names : List String) : Document → Option (List Document)
  | array items => if items.length = names.length then some items else none
  | object fields =>
      if fields.all (fun f => f.1.isSome) then names.mapM (fun n => field? fields n.toList)
      else none
  | _ => none

/-- A double that is no finite number is not read back from a document. -/
theorem float?_ofFloat (x : Float) :
    (ofFloat x).float? = if x.isFinite then some x else none := by
  rw [ofFloat]
  split <;> rfl

/-- A list is read as a whole if each of its elements is read. -/
theorem mapM_eq_some {α β : Type} {f : α → Option β} {xs : List α} {ys : List β}
    (h : xs.map f = ys.map some) : xs.mapM f = some ys := by
  induction xs generalizing ys with
  | nil =>
      cases ys with
      | nil => rfl
      | cons y ys => cases h
  | cons x xs ih =>
      cases ys with
      | nil => cases h
      | cons y ys =>
          rw [List.map_cons, List.map_cons, List.cons.injEq] at h
          simp [h.1, ih h.2]

/-- Where no two fields have one name, a field is found by its name. -/
theorem field?_of_mem {fields : List (String × Document)} (hnodup : (fields.map Prod.fst).Nodup)
    {name : String} {d : Document} (h : (name, d) ∈ fields) :
    field? (fields.map (fun f => (some f.1.toList, f.2))) name.toList = some d := by
  have hfilter : (fields.map (fun f => (some f.1.toList, f.2))).filter
      (fun f => f.1 == some name.toList) = [(some name.toList, d)] := by
    induction fields with
    | nil => cases h
    | cons f rest ih =>
        rw [List.map_cons, List.nodup_cons] at hnodup
        rw [List.map_cons, List.filter_cons]
        rcases List.mem_cons.mp h with rfl | hrest
        · have hothers : (rest.map (fun f => (some f.1.toList, f.2))).filter
              (fun f => f.1 == some name.toList) = [] := by
            rw [List.filter_eq_nil_iff]
            intro e he
            obtain ⟨f, hf, rfl⟩ := List.mem_map.mp he
            simp only [beq_iff_eq, Option.some.injEq, String.toList_inj]
            exact fun heq => hnodup.1 (List.mem_map.mpr ⟨f, hf, heq⟩)
          rw [if_pos (by simp), hothers]
        · have hne : f.1 ≠ name := fun heq => hnodup.1 (List.mem_map.mpr ⟨_, hrest, heq.symm⟩)
          rw [if_neg (by simpa [String.toList_inj] using hne)]
          exact ih hnodup.2 hrest
  rw [field?, hfilter]

/-- A record that was written is read with the values that were written. -/
theorem record?_ofFields {fields : List (String × Document)} (hnodup : (fields.map Prod.fst).Nodup) :
    (ofFields fields).record? (fields.map Prod.fst) = some (fields.map Prod.snd) := by
  have hsound : (fields.map (fun f => (some f.1.toList, f.2))).all (fun f => f.1.isSome) = true := by
    simp
  rw [ofFields, record?, if_pos hsound]
  apply mapM_eq_some
  rw [List.map_map, List.map_map]
  exact List.map_congr_left (fun f hf => field?_of_mem hnodup hf)

end Document

end InfixFormula
