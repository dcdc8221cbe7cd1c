import Qeli.Lib.Text

/-!
# The INI format

`config/format.rs`: documents of sections with `key = value` entries, their printer and
their parser. The grammar is line-oriented, without continuations. Section names and keys
are printed bare, values are quoted where they need it, and control characters never
reach the file.
-/

namespace Qeli.Config

open Qeli.Lib Qeli.Lib.Str

structure Section where
  kind : Str
  instanceName : Option Str
  entries : List (Str × Str)
  deriving DecidableEq, Repr

structure IniDoc where
  sections : List Section
  deriving DecidableEq, Repr

structure ParseError where
  line : Nat
  msg : String
  deriving DecidableEq, Repr

/-! ## Reading a section -/

def Section.all (self : Section) (key : Str) : List Str :=
  (self.entries.filter fun entry => entry.1 == key).map (·.2)

/-- The first value; that a key is repeated is only reported. -/
def Section.get (self : Section) (key : Str) : Option Str := (self.all key).head?

def Section.containsKey (self : Section) (key : Str) : Bool :=
  self.entries.any fun entry => entry.1 == key

/-- The parts of the values between commas, trimmed; blank ones are dropped. -/
def Section.list (self : Section) (key : Str) : List Str :=
  ((self.all key).flatMap fun raw => (raw.splitOn ',').map trim).filter fun t => !t.isEmpty

def doubleQuote : Char := '\x22'

def backslash : Char := '\x5c'

/-! ## Printing -/

def sanitizeIdent (s : Str) : Str :=
  if s.any isControl then s.filter fun c => !isControl c else s

def quoteIfNeeded (s : Str) : Str :=
  let s := if s.any fun c => isControl c && c != '\t' then
      s.filter fun c => !isControl c || c == '\t'
    else s
  let needs := s.isEmpty || s.head?.any isWhitespace || s.getLast?.any isWhitespace ||
    s.contains ';' || s.contains '#' || s.contains doubleQuote
  if needs then [doubleQuote] ++ escape backslash doubleQuote s ++ [doubleQuote] else s

def Section.header (self : Section) : Str :=
  match self.instanceName with
  | some inst => ['['] ++ sanitizeIdent self.kind ++ [':'] ++ sanitizeIdent inst ++ [']']
  | none => ['['] ++ sanitizeIdent self.kind ++ [']']

def entryLine (entry : Str × Str) : Str :=
  sanitizeIdent entry.1 ++ [' ', '=', ' '] ++ quoteIfNeeded entry.2

def Section.toText (self : Section) : Str :=
  writeln self.header ++ self.entries.flatMap fun entry => writeln (entryLine entry)

def IniDoc.toText (self : IniDoc) : Str :=
  self.sections.zipIdx.flatMap fun indexed =>
    (if 0 < indexed.2 then writeln [] else []) ++ indexed.1.toText

/-! ## Parsing -/

/-- With both quotes there, at least two bytes are at least two characters. -/
def unquote (s : Str) : Str :=
  if 2 ≤ s.length ∧ s.head? = some doubleQuote ∧ s.getLast? = some doubleQuote then
    replace [backslash, doubleQuote] [doubleQuote] s.tail.dropLast
  else s

structure Parser where
  doc : List Section
  current : Option Section
  deriving DecidableEq, Repr

def Parser.flush (self : Parser) : List Section := self.doc ++ self.current.toList

def parseHeader (lineno : Nat) (parser : Parser) (header : Str) : Except ParseError Parser :=
  match stripSuffix ']' header with
  | none => .error ⟨lineno, "section header missing closing ']'"⟩
  | some header =>
    let (kind, instanceName) := match splitOnce ':' header with
      | some (kind, inst) => (trim kind, some (trim inst))
      | none => (trim header, none)
    if kind.any isControl || instanceName.any fun name => name.any isControl then
      .error ⟨lineno, "control character in section name"⟩
    else if kind.isEmpty then .error ⟨lineno, "empty section name"⟩
    else .ok ⟨parser.flush, some ⟨kind, instanceName, []⟩⟩

def parseEntry (lineno : Nat) (parser : Parser) (line : Str) : Except ParseError Parser :=
  match splitOnce '=' line with
  | none => .error ⟨lineno, "expected 'key = value' or '[section]'"⟩
  | some (key, value) =>
    let key := trim key
    if key.isEmpty then .error ⟨lineno, "empty key"⟩
    else if key.any isControl then .error ⟨lineno, "control character in key name"⟩
    else
      let value := unquote (trim value)
      match parser.current with
      | some sec => .ok { parser with current := some { sec with entries := sec.entries ++ [(key, value)] } }
      | none =>
        .error ⟨lineno, "key '" ++ String.ofList key ++ "' appears before any [section]"⟩

def parseLine (lineno : Nat) (parser : Parser) (raw : Str) : Except ParseError Parser :=
  if raw.any fun c => isControl c && c != '\t' then
    .error ⟨lineno, "unsupported control character in INI line"⟩
  else
    let line := trim raw
    match line with
    | [] => .ok parser
    | first :: rest =>
      if first = ';' ∨ first = '#' then .ok parser
      else if first = '[' then parseHeader lineno parser rest
      else parseEntry lineno parser line

/-- The loop over the lines; `idx` of them have been read. -/
def parseLines : Nat → Parser → List Str → Except ParseError Parser
  | _, parser, [] => .ok parser
  | idx, parser, raw :: rest => do
    let parser ← parseLine (idx + 1) parser raw
    parseLines (idx + 1) parser rest

def IniDoc.parse (input : Str) : Except ParseError IniDoc := do
  let parser ← parseLines 0 ⟨[], none⟩ (lines input)
  return ⟨parser.flush⟩

end Qeli.Config
