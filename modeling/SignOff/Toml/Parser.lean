/-
  SignOff/Toml/Parser.lean
  ========================
  **Reading TOML.**  A text is read into its lines, each a key with a value, or a header;
  the lines then make the document.  A value between brackets may span lines and hold
  comments, one between braces may not.  Values are read with a limit on how deep they are
  nested, and a sequence of them with as many steps as there are characters.
-/
import SignOff.Toml.Scalar

namespace SignOff.Toml

/-! ### Between lines -/

/-- Skip blanks, line ends and comments, and say whether what was skipped was in order.
    The flag tells whether a comment is open. -/
def skipLines? (inComment : Bool) : List Char → Option (List Char)
  | [] => some []
  | c :: rest =>
    if c = '\n' then skipLines? false rest
    else if inComment then if isPlain c then skipLines? true rest else none
    else if isGap c then skipLines? false rest
    else if c = '#' then skipLines? true rest
    else some (c :: rest)

/-- The rest of a line after its value: blanks and a comment. -/
def lineEnd? (cs : List Char) : Option (List Char) :=
  match skipGap cs with
  | [] => some []
  | '\n' :: rest => some rest
  | '#' :: rest => skipLines? true rest
  | _ => none

/-! ### Values -/

/-- The items of an array after its opening bracket or a comma.  A comma may stand behind
    the last item. -/
def items? (value? : Reader Toml) : Nat → Reader (List Toml)
  | 0, _ => none
  | n + 1, cs => do
    match ← skipLines? false cs with
    | ']' :: rest => return ([], rest)
    | cs =>
      let (v, rest) ← value? cs
      match ← skipLines? false rest with
      | ',' :: rest =>
        let (vs, rest) ← items? value? n rest
        return (v :: vs, rest)
      | ']' :: rest => return ([v], rest)
      | _ => none

def pair? (value? : Reader Toml) : Reader (Key × Toml) := fun cs => do
  let (key, rest) ← key? cs
  let '=' :: rest := rest | none
  let (v, rest) ← value? (skipGap rest)
  return ((key, v), rest)

/-- The pairs of a table, at least one, up to its closing brace. -/
def pairs? (value? : Reader Toml) : Nat → Reader (List (Key × Toml))
  | 0, _ => none
  | n + 1, cs => do
    let (p, rest) ← pair? value? cs
    match skipGap rest with
    | ',' :: rest =>
      let (ps, rest) ← pairs? value? n rest
      return (p :: ps, rest)
    | '}' :: rest => return ([p], rest)
    | _ => none

/-- A value nested to at most so many levels. -/
def value? : Nat → Reader Toml
  | n, cs =>
    match n, cs with
    | n + 1, '[' :: rest =>
      (items? (fun cs => value? n cs) rest.length rest).map fun (vs, rest) => (.array vs, rest)
    | n + 1, '{' :: rest =>
      match skipGap rest with
      | '}' :: rest => some (.table .braces [], rest)
      | rest => do
        let (ps, rest) ← pairs? (fun cs => value? n cs) rest.length rest
        return (.table .braces (← Fields.ofPairs ps), rest)
    | _, '"' :: _ => (string? cs).map fun (s, rest) => (.text s, rest)
    | _, '\'' :: _ => (string? cs).map fun (s, rest) => (.text s, rest)
    | _, cs => scalar? cs

/-! ### Documents -/

/-- The key between the brackets of a header. -/
def headerKey? (brackets : List Char) : Reader Key := fun cs => do
  let (key, rest) ← key? cs
  if brackets.isPrefixOf rest then return (key, rest.drop brackets.length) else none

def line? : Reader Line
  | '[' :: '[' :: rest =>
    (headerKey? [']', ']'] rest).map fun (key, rest) => (.nextHeader key, rest)
  | '[' :: rest => (headerKey? [']'] rest).map fun (key, rest) => (.header key, rest)
  | cs => (pair? (value? (levelLimit - 1)) cs).map fun ((key, v), rest) => (.pair key v, rest)

def lines? : Nat → List Char → Option (List Line)
  | 0, _ => none
  | n + 1, cs => do
    match ← skipLines? false cs with
    | [] => return []
    | cs =>
      let (line, rest) ← line? cs
      return line :: (← lines? n (← lineEnd? rest))

/-- The characters with every line end as one line feed. -/
def plainBreaks : List Char → List Char
  | '\r' :: '\n' :: rest => '\n' :: plainBreaks rest
  | c :: rest => c :: plainBreaks rest
  | [] => []

/-- The characters without the mark that a text may begin with. -/
def withoutMark : List Char → List Char
  | c :: rest => if c = '\uFEFF' then rest else c :: rest
  | [] => []

def parse? (s : String) : Option Fields :=
  let cs := plainBreaks (withoutMark s.toList)
  (lines? (cs.length + 1) cs).bind Fields.ofLines

end SignOff.Toml
