import InfixFormula.Document.Reader
import InfixFormula.Formula

/-!
# Formulas as documents

A formula is saved as an object with its tree, its text and its placeholders.  A tree is an object with
one field, which names the kind of node and holds its parts; an operator is its English name.  Sources
are saved as the text they show, so a source that was read back has a buffer of its own.

Reading back opens containers up to a given number of levels.  A node takes two, one for its kind and
one for its parts, a variable only the first.  Fields that nobody asks for may hold anything.
-/

namespace InfixFormula

namespace Operator

/-- The name of the operator in documents. -/
def documentName : Operator → String
  | add => "Add"
  | subtract => "Subtract"
  | multiply => "Multiply"
  | divide => "Divide"

/-- The operator with the name. -/
def ofDocumentName? (name : Text) : Option Operator :=
  [add, subtract, multiply, divide].find? (fun op => op.documentName.toList == name)

/-- Reads an operator: its name, or an object with its name and nothing in it. -/
def ofDocument? (levels : Nat) : Document → Option Operator
  | .string (some name) => ofDocumentName? name
  | .object [(some name, .null)] => if levels = 0 then none else ofDocumentName? name
  | _ => none

end Operator

namespace Tree

/-- The name of a constant's kind. -/
def constantKind : String := "Constant"

/-- The name of a variable's kind. -/
def variableKind : String := "Variable"

/-- The name of an operation's kind. -/
def binaryKind : String := "Binary"

/-- The parts of a constant. -/
def constantFields : List String := ["value", "source"]

/-- The parts of an operation. -/
def binaryFields : List String := ["op", "left", "right", "source"]

/-- The tree as a document. -/
def toDocument : Tree → Document
  | const x s =>
      .ofFields [(constantKind,
        .ofFields (constantFields.zip [Document.ofFloat x, Document.ofText s.text]))]
  | var name => .ofFields [(variableKind, Document.ofText name)]
  | binary op l r s =>
      .ofFields [(binaryKind,
        .ofFields (binaryFields.zip
          [Document.ofText op.documentName.toList, l.toDocument, r.toDocument,
            Document.ofText s.text]))]

/-- Reads a tree, opening at most `levels` levels of containers. -/
def ofDocument? (levels : Nat) (d : Document) : Option Tree :=
  match levels, d with
  | levels + 1, .object [(some kind, parts)] =>
      if kind == variableKind.toList then parts.text?.map var
      else
        match levels with
        | 0 => none
        | inner + 1 =>
            if kind == constantKind.toList then
              match parts.record? constantFields with
              | some [value, source] =>
                  match value.float?, source.text? with
                  | some x, some s => some (const x (Source.ofText s))
                  | _, _ => none
              | _ => none
            else if kind == binaryKind.toList then
              match parts.record? binaryFields with
              | some [op, left, right, source] =>
                  match Operator.ofDocument? inner op, ofDocument? inner left,
                      ofDocument? inner right, source.text? with
                  | some op, some l, some r, some s => some (binary op l r (Source.ofText s))
                  | _, _, _, _ => none
              | _ => none
            else none
  | _, _ => none

end Tree

namespace Formula

/-- The parts of a formula. -/
def documentFields : List String := ["expr", "text", "variable_mapping"]

/-- The formula as a document. -/
def toDocument (f : Formula) : Document :=
  .ofFields (documentFields.zip
    [f.tree.toDocument, Document.ofText f.text,
      .object (f.mapping.entries.map (fun e => (some e.1, Document.ofText e.2)))])

/-- Reads one placeholder with its name. -/
def entryOfDocument? (field : Option Text × Document) : Option (Text × Text) :=
  match field.1, field.2.text? with
  | some name, some placeholder => some (name, placeholder)
  | _, _ => none

/-- Reads the placeholders of a formula; of two for one name the later counts. -/
def mappingOfDocument? : Document → Option (Dict Text)
  | .object fields => (fields.mapM entryOfDocument?).map Dict.ofList
  | _ => none

/-- Reads a formula, opening at most `levels` levels of containers. -/
def ofDocument? (levels : Nat) (d : Document) : Option Formula :=
  match levels with
  | 0 => none
  | levels + 1 =>
      match d.record? documentFields with
      | some [tree, text, mapping] =>
          match Tree.ofDocument? levels tree, text.text?, mappingOfDocument? mapping with
          | some tree, some text, some mapping =>
              if levels = 0 then none else some ⟨tree, text, mapping⟩
          | _, _, _ => none
      | _ => none

/-- The formula that is read back from its own document. -/
def restored? (f : Formula) : Option Formula :=
  ofDocument? (2 * f.tree.depth + 1) f.toDocument

end Formula

/-- How many levels of containers are opened in a document that is given as text. -/
def Document.levelLimit : Nat := 127

end InfixFormula
