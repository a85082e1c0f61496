import InfixFormula.Document.Basic
import InfixFormula.Document.Number

/-!
# Reading documents

The text of a document follows the JSON grammar to the letter: no comments, no trailing commas, no
leading zeros, no raw control characters in strings, and nothing but blanks around the one value.

Values are read by recursion on a budget of steps.  Each character accounts for at most two steps, so
twice the length of the text is always enough (`read?`).
-/

namespace InfixFormula.Document

/-- The text without the blanks in front of the next token. -/
def skipBlanks (t : Text) : Text :=
  t.dropWhile (fun c => c == ' ' || c == '\n' || c == '\r' || c == '\t')

/-- The value of a hexadecimal digit. -/
def hexDigit? (c : Char) : Option Nat :=
  if c.isDigit then some (c.toNat - '0'.toNat)
  else if 'a' ≤ c ∧ c ≤ 'f' then some (c.toNat - 'a'.toNat + 10)
  else if 'A' ≤ c ∧ c ≤ 'F' then some (c.toNat - 'A'.toNat + 10)
  else none

/-- The code that four hexadecimal digits write. -/
def hexCode? (a b c d : Char) : Option Nat :=
  match hexDigit? a, hexDigit? b, hexDigit? c, hexDigit? d with
  | some a, some b, some c, some d => some (((a * 16 + b) * 16 + c) * 16 + d)
  | _, _, _, _ => none

/-- Whether the code is the first half of a surrogate pair. -/
def isHighSurrogate (n : Nat) : Bool := 0xD800 ≤ n && n < 0xDC00

/-- Whether the code is the second half of a surrogate pair. -/
def isLowSurrogate (n : Nat) : Bool := 0xDC00 ≤ n && n < 0xE000

/-- The character behind a backslash, other than a code. -/
def escaped? : Char → Option Char
  | '"' => some '"'
  | '\\' => some '\\'
  | '/' => some '/'
  | 'b' => some (Char.ofNat 8)
  | 'f' => some (Char.ofNat 12)
  | 'n' => some '\n'
  | 'r' => some '\r'
  | 't' => some '\t'
  | _ => none

/-- Reads a string behind its opening quote.  What has been read is in `read`, the latest first; it is
a text as long as `sound` holds.  Gives the string and what follows its closing quote. -/
def stringBody? (read : Text) (sound : Bool) : Text → Option (Option Text × Text)
  | [] => none
  | '"' :: rest => some (if sound then some read.reverse else none, rest)
  | '\\' :: 'u' :: a :: b :: c :: d :: rest =>
      match hexCode? a b c d with
      | none => none
      | some high =>
          if isHighSurrogate high then
            match rest with
            | '\\' :: 'u' :: e :: f :: g :: h :: behind =>
                match hexCode? e f g h with
                | none => none
                | some low =>
                    if isLowSurrogate low then
                      let code := 0x10000 + (high - 0xD800) * 0x400 + (low - 0xDC00)
                      stringBody? (Char.ofNat code :: read) sound behind
                    else stringBody? read false behind
            | behind => stringBody? read false behind
          else if isLowSurrogate high then stringBody? read false rest
          else stringBody? (Char.ofNat high :: read) sound rest
  | '\\' :: c :: rest =>
      match escaped? c with
      | some e => stringBody? (e :: read) sound rest
      | none => none
  | c :: rest => if c.toNat < 0x20 then none else stringBody? (c :: read) sound rest
termination_by t => t.length

/-- Reads the exponent of a number, which is zero if there is none. -/
def exponent? (t : Text) : Option (Int × Text) :=
  match t with
  | [] => some (0, [])
  | c :: rest =>
      if c = 'e' ∨ c = 'E' then
        let signed :=
          match rest with
          | '-' :: behind => (true, behind)
          | '+' :: behind => (false, behind)
          | _ => (false, rest)
        let digits := signed.2.takeWhile Char.isDigit
        let magnitude : Int := Decimal.digitsValue digits
        if digits.isEmpty then none
        else some (if signed.1 then -magnitude else magnitude, signed.2.dropWhile Char.isDigit)
      else some (0, t)

/-- Reads the digits behind the point of a number, of which there are none without a point. -/
def fraction? (t : Text) : Option (Text × Text) :=
  match t with
  | '.' :: rest =>
      let digits := rest.takeWhile Char.isDigit
      if digits.isEmpty then none else some (digits, rest.dropWhile Char.isDigit)
  | _ => some ([], t)

/-- Reads a number. -/
def number? (t : Text) : Option (Document × Text) :=
  let signed :=
    match t with
    | '-' :: rest => (true, rest)
    | _ => (false, t)
  let whole := signed.2.takeWhile Char.isDigit
  if whole.isEmpty || (whole.head? == some '0' && 1 < whole.length) then none
  else
    match fraction? (signed.2.dropWhile Char.isDigit) with
    | none => none
    | some (fraction, behind) =>
        match exponent? behind with
        | none => none
        | some (exponent, rest) =>
            some (.number (numberValue? signed.1 whole fraction exponent), rest)

mutual

/-- Reads a value in at most `steps` steps. -/
def value? (steps : Nat) (t : Text) : Option (Document × Text) :=
  match steps with
  | 0 => none
  | steps + 1 =>
      match skipBlanks t with
      | '{' :: rest =>
          match skipBlanks rest with
          | '}' :: behind => some (.object [], behind)
          | fields =>
              match fields? steps fields with
              | some (fs, behind) => some (.object fs, behind)
              | none => none
      | '[' :: rest =>
          match skipBlanks rest with
          | ']' :: behind => some (.array [], behind)
          | items =>
              match items? steps items with
              | some (is, behind) => some (.array is, behind)
              | none => none
      | '"' :: rest =>
          match stringBody? [] true rest with
          | some (s, behind) => some (.string s, behind)
          | none => none
      | 't' :: 'r' :: 'u' :: 'e' :: rest => some (.bool true, rest)
      | 'f' :: 'a' :: 'l' :: 's' :: 'e' :: rest => some (.bool false, rest)
      | 'n' :: 'u' :: 'l' :: 'l' :: rest => some (.null, rest)
      | rest => number? rest

/-- Reads the items of an array from the first on, and the bracket that closes it. -/
def items? (steps : Nat) (t : Text) : Option (List Document × Text) :=
  match steps with
  | 0 => none
  | steps + 1 =>
      match value? steps t with
      | none => none
      | some (item, behind) =>
          match skipBlanks behind with
          | ']' :: rest => some ([item], rest)
          | ',' :: rest =>
              match items? steps rest with
              | some (items, rest) => some (item :: items, rest)
              | none => none
          | _ => none

/-- Reads the fields of an object from the first on, and the bracket that closes it. -/
def fields? (steps : Nat) (t : Text) : Option (List (Option Text × Document) × Text) :=
  match steps with
  | 0 => none
  | steps + 1 =>
      match skipBlanks t with
      | '"' :: named =>
          match stringBody? [] true named with
          | none => none
          | some (name, behind) =>
              match skipBlanks behind with
              | ':' :: valued =>
                  match value? steps valued with
                  | none => none
                  | some (value, behind) =>
                      match skipBlanks behind with
                      | '}' :: rest => some ([(name, value)], rest)
                      | ',' :: rest =>
                          match fields? steps rest with
                          | some (fields, rest) => some ((name, value) :: fields, rest)
                          | none => none
                      | _ => none
              | _ => none
      | _ => none

end

/-- Reads a text as one document. -/
def read? (t : Text) : Option Document :=
  match value? (2 * t.length + 2) t with
  | some (d, rest) => if (skipBlanks rest).isEmpty then some d else none
  | none => none

end InfixFormula.Document
