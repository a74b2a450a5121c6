import SuiteOutline.Files.Tree
import SuiteOutline.Text.Blank

/-! Environment files: lines `NAME=value`, with quotes, comments and references to other names. -/
namespace SuiteOutline.EnvFile

/-- Every line break as a line feed. -/
def unifyBreaks : List Char → List Char
  | '\r' :: '\n' :: cs => '\n' :: unifyBreaks cs
  | '\r' :: cs => '\n' :: unifyBreaks cs
  | c :: cs => c :: unifyBreaks cs
  | [] => []

/-- A blank inside a line. -/
def isInlineBlank (c : Char) : Bool := isBlank c && c != '\n' && c != '\r'

def skipInline (cs : List Char) : List Char := cs.dropWhile isInlineBlank

def skipLine (cs : List Char) : List Char := cs.dropWhile fun c => c != '\n' && c != '\r'

/-- Drops the word `export` and the blanks after it; without blanks it is part of a name. -/
def skipExport (cs : List Char) : List Char :=
  let word := "export".toList
  if word.isPrefixOf cs then
    let rest := cs.drop word.length
    if (rest.head?.map isInlineBlank).getD false then skipInline rest else cs
  else cs

/-- Splits off quoted text, the opening quote being gone, at the first quote that no backslash takes
with it. The second component is what follows that quote. -/
def quotedEnd? (quote : Char) : List Char → Option (List Char × List Char)
  | [] => none
  | '\\' :: c :: cs => (quotedEnd? quote cs).map fun (inner, rest) => ('\\' :: c :: inner, rest)
  | c :: cs =>
    if c = quote then some ([], cs)
    else (quotedEnd? quote cs).map fun (inner, rest) => (c :: inner, rest)

/-- What a letter after a backslash stands for between double quotes. -/
def doubleEscape? : Char → Option Char
  | '\\' => some '\\'
  | '\'' => some '\''
  | '"' => some '"'
  | 'a' => some '\x07'
  | 'b' => some '\x08'
  | 'f' => some '\x0c'
  | 'n' => some '\n'
  | 'r' => some '\r'
  | 't' => some '\t'
  | 'v' => some '\x0b'
  | _ => none

/-- What a letter after a backslash stands for between single quotes. -/
def singleEscape? : Char → Option Char
  | '\\' => some '\\'
  | '\'' => some '\''
  | _ => none

def unescape (escape? : Char → Option Char) : List Char → List Char
  | '\\' :: c :: cs =>
    match escape? c with
    | some d => d :: unescape escape? cs
    | none => '\\' :: unescape escape? (c :: cs)
  | c :: cs => c :: unescape escape? cs
  | [] => []

/-- Cuts off a comment: blanks and all from the first number sign that follows a blank. -/
def withoutComment : List Char → List Char
  | [] => []
  | c :: cs =>
    if isBlank c && (cs.dropWhile isBlank).head? = some '#' then []
    else c :: withoutComment cs

def trimRight (cs : List Char) : List Char := (cs.reverse.dropWhile isBlank).reverse

/-- A value and what follows it; a quote that is not closed makes none. Blanks before the value do
not count, but make a number sign after them begin a comment. -/
def readValue? (cs : List Char) : Option (List Char × List Char) :=
  match skipInline cs with
  | '\'' :: quoted => (quotedEnd? '\'' quoted).map fun (v, rest) => (unescape singleEscape? v, rest)
  | '"' :: quoted => (quotedEnd? '"' quoted).map fun (v, rest) => (unescape doubleEscape? v, rest)
  | _ =>
    let line := cs.takeWhile fun c => c != '\n' && c != '\r'
    some (trimRight (skipInline (withoutComment line)), skipLine cs)

/-- A name and what follows it. -/
def readKey? (cs : List Char) : Option (List Char × List Char) :=
  match cs with
  | '\'' :: cs =>
    match cs.span (· != '\'') with
    | ([], _) | (_, []) => none
    | (key, _ :: rest) => some (key, rest)
  | _ =>
    let isKey (c : Char) : Bool := c != '=' && c != '#' && !isBlank c
    match cs.span isKey with
    | ([], _) => none
    | (key, rest) => some (key, rest)

/-- Whether nothing but blanks and a comment stands before the end of the line. -/
def endOfLine? (cs : List Char) : Option (List Char) :=
  let cs := match skipInline cs with
    | '#' :: rest => skipLine rest
    | _ => cs
  match skipInline cs with
  | [] => some []
  | '\n' :: rest => some rest
  | _ => none

/-- A line's name and value, if it has them, and the text after the line. -/
structure Binding where
  entry : Option (String × Option String)
  rest : List Char
deriving Repr

/-- Reads the line at hand, blank lines before it being gone. -/
def readBinding (cs : List Char) : Binding :=
  let spoiled (point : List Char) : Binding := ⟨none, (skipLine point).drop 1⟩
  let cs := skipExport cs
  if cs.head? = some '#' then ⟨none, (skipLine cs).drop 1⟩
  else match readKey? cs with
    | none => spoiled cs
    | some (key, rest) =>
      let rest := skipInline rest
      let value? : Option (Option (List Char) × List Char) := match rest with
        | '=' :: after => (readValue? after).map fun (v, r) => (some v, r)
        | _ => some (none, rest)
      match value? with
      | none => spoiled rest
      | some (value, rest) =>
        match endOfLine? rest with
        | some next => ⟨some (String.ofList key, value.map String.ofList), next⟩
        | none => spoiled rest

/-- Reads all lines, with fuel for so many. -/
def readLines : Nat → List Char → List (String × Option String)
  | 0, _ => []
  | fuel + 1, cs =>
    match cs.dropWhile isBlank with
    | [] => []
    | cs =>
      let b := readBinding cs
      b.entry.toList ++ readLines fuel b.rest

/-- A reference such as `${NAME}` or `${NAME:-default}`, its opening being gone. -/
def reference? (cs : List Char) : Option (String × String × List Char) :=
  let (name, rest) := cs.span fun c => c != '\x7d' && c != ':'
  match rest with
  | '\x7d' :: rest => some (String.ofList name, "", rest)
  | ':' :: '-' :: rest =>
    match rest.span (· != '\x7d') with
    | (default, _ :: rest) => some (String.ofList name, String.ofList default, rest)
    | _ => none
  | _ => none

/-- The value with its references replaced, with fuel for so many characters. -/
def substitute (value? : String → Option String) : Nat → List Char → List Char
  | 0, _ => []
  | _ + 1, [] => []
  | fuel + 1, '$' :: '\x7b' :: cs =>
    match reference? cs with
    | some (name, default, rest) =>
      ((value? name).getD default).toList ++ substitute value? fuel rest
    | none => '$' :: substitute value? fuel ('\x7b' :: cs)
  | fuel + 1, c :: cs => c :: substitute value? fuel cs

/-- Replaces references by earlier lines' values, or else by the environment's. -/
def resolve (env : List (String × String)) :
    List (String × Option String) → List (String × Option String) → List (String × Option String)
  | done, [] => done
  | done, (name, none) :: rest => resolve env (setName name none done) rest
  | done, (name, some v) :: rest =>
    let value? (n : String) : Option String :=
      match done.lookup n with
      | some w => some (w.getD "")
      | none => env.reverse.lookup n
    let resolved := String.ofList (substitute value? (v.toList.length + 1) v.toList)
    resolve env (setName name (some resolved) done) rest

/-- Drops the mark of the byte order in front. -/
def withoutMark : List Char → List Char
  | '\uFEFF' :: cs => cs
  | cs => cs

/-- The names and values of a file. A name without an equals sign has no value. -/
def read (env : List (String × String)) (text : String) : List (String × Option String) :=
  let cs := unifyBreaks (withoutMark text.toList)
  resolve env [] (readLines (cs.length + 1) cs)

end SuiteOutline.EnvFile
