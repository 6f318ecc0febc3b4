/-!
# Lexemes of TOML

Readers take characters off the front of a list and answer what they read together with the rest,
or nothing if the front is not of their kind. This module reads blanks, comments, line ends, keys
and strings.
-/

namespace GuestBridge.Toml

/-- Reads from the front of a list of characters. -/
abbrev Reader := StateT (List Char) Option

namespace Reader

/-- The next character, which stays. -/
def peek : Reader (Option Char) := fun cs => some (cs.head?, cs)

/-- One character of a kind. -/
def char (p : Char → Bool) : Reader Char
  | c :: cs => if p c then some (c, cs) else none
  | [] => none

/-- Exactly these characters. -/
def exact : List Char → Reader Unit
  | [] => pure ()
  | c :: rest => do
    let _ ← char (· == c)
    exact rest

/-- As many characters of a kind as there are. -/
def span (p : Char → Bool) : Reader (List Char) := fun cs => some (cs.span p)

/-- The end of the document. -/
def ending : Reader Unit := fun cs => if cs.isEmpty then some ((), cs) else none

end Reader

open Reader

/-! ## Blanks, comments and line ends -/

/-- A space or a tab. -/
def isBlank (c : Char) : Bool := c == ' ' || c == '\t'

/-- May the character stand in a comment or a string? Of the controls only the tab may. -/
def isPlain (c : Char) : Bool := c == '\t' || (0x20 ≤ c.toNat && c.toNat != 0x7F)

/-- Spaces and tabs. -/
def blanks : Reader Unit := do
  let _ ← span isBlank

/-- A line feed, alone or behind a carriage return. -/
def newline : Reader Unit := exact ['\n'] <|> exact ['\r', '\n']

/-- A comment up to the end of its line. -/
def comment : Reader Unit := do
  exact ['#']
  let _ ← span isPlain

/-- The rest of a line behind a statement. -/
def lineTrailing : Reader Unit := do
  blanks
  let _ ← optional comment
  newline <|> ending

/-- Blanks and line ends, without what follows. -/
def skipBlankLines : List Char → List Char
  | ' ' :: rest => skipBlankLines rest
  | '\t' :: rest => skipBlankLines rest
  | '\n' :: rest => skipBlankLines rest
  | '\r' :: '\n' :: rest => skipBlankLines rest
  | cs => cs

theorem length_skipBlankLines_le (cs : List Char) :
    (skipBlankLines cs).length ≤ cs.length := by
  fun_induction skipBlankLines cs <;> simp_all <;> omega

/-! ## Escapes -/

/-- The value of a hexadecimal digit of either case. -/
def hexValue? (c : Char) : Option Nat :=
  if c.isDigit then some (c.toNat - 0x30)
  else if 0x41 ≤ c.toNat ∧ c.toNat ≤ 0x46 then some (c.toNat - 0x37)
  else if 0x61 ≤ c.toNat ∧ c.toNat ≤ 0x66 then some (c.toNat - 0x57)
  else none

/-- The character of a code point in hexadecimal digits. Surrogates are no characters. -/
def codePoint? (digits : List Char) : Option Char := do
  let n ← digits.foldlM (fun n d => (hexValue? d).map (n * 16 + ·)) 0
  if n.isValidChar then pure (Char.ofNat n) else none

/-- The character of a letter behind a backslash. -/
def unescape? : Char → Option Char
  | 'b' => some '\x08'
  | 't' => some '\t'
  | 'n' => some '\n'
  | 'f' => some '\x0c'
  | 'r' => some '\r'
  | '"' => some '"'
  | '\\' => some '\\'
  | _ => none

/-- A character and the text read after it. -/
def consText (c : Char) (r : List Char × List Char) : List Char × List Char := (c :: r.1, r.2)

/-! ## Strings on one line -/

/-- The mark of a string without escapes. -/
def apostrophe : Char := '\x27'

/-- A string with escapes, behind its opening mark. -/
def basicText : List Char → Option (List Char × List Char)
  | [] => none
  | '"' :: rest => some ([], rest)
  | '\\' :: 'u' :: a :: b :: c :: d :: rest => do
    let ch ← codePoint? [a, b, c, d]
    consText ch <$> basicText rest
  | '\\' :: 'U' :: a :: b :: c :: d :: e :: f :: g :: h :: rest => do
    let ch ← codePoint? [a, b, c, d, e, f, g, h]
    consText ch <$> basicText rest
  | '\\' :: e :: rest => do
    let ch ← unescape? e
    consText ch <$> basicText rest
  | c :: rest => if isPlain c ∧ c ≠ '\\' then consText c <$> basicText rest else none

/-- A string without escapes, behind its opening mark. -/
def literalText : List Char → Option (List Char × List Char)
  | [] => none
  | c :: rest =>
    if c = apostrophe then some ([], rest)
    else if isPlain c then consText c <$> literalText rest
    else none

/-! ## Strings of several lines -/

/-- The end of a string of several lines: three marks, with up to two more before them that belong
to the string. -/
def closing? (mark : Char) (cs : List Char) : Option (List Char × List Char) :=
  let run := (cs.takeWhile (· = mark)).length
  if run < 3 then none
  else
    let own := min (run - 3) 2
    some (List.replicate own mark, cs.drop (own + 3))

/-- A string of several lines with escapes, behind its opening marks. A backslash at the end of a
line joins it to the next text. -/
def basicLines (cs : List Char) : Option (List Char × List Char) :=
  match cs with
  | [] => none
  | '\\' :: 'u' :: a :: b :: c :: d :: rest => do
    let ch ← codePoint? [a, b, c, d]
    consText ch <$> basicLines rest
  | '\\' :: 'U' :: a :: b :: c :: d :: e :: f :: g :: h :: rest => do
    let ch ← codePoint? [a, b, c, d, e, f, g, h]
    consText ch <$> basicLines rest
  | '\\' :: e :: rest =>
    match unescape? e with
    | some ch => consText ch <$> basicLines rest
    | none =>
      if (newline ((e :: rest).dropWhile isBlank)).isSome then
        basicLines (skipBlankLines (e :: rest))
      else none
  | '\r' :: '\n' :: rest => consText '\n' <$> basicLines rest
  | c :: rest =>
    if c = '"' then
      match closing? '"' (c :: rest) with
      | some ended => some ended
      | none => consText c <$> basicLines rest
    else if (isPlain c ∧ c ≠ '\\') ∨ c = '\n' then consText c <$> basicLines rest
    else none
termination_by cs.length
decreasing_by
  all_goals first
    | exact Nat.lt_succ_of_le (length_skipBlankLines_le _)
    | (simp only [List.length_cons]; omega)

/-- A string of several lines without escapes, behind its opening marks. -/
def literalLines : List Char → Option (List Char × List Char)
  | [] => none
  | '\r' :: '\n' :: rest => consText '\n' <$> literalLines rest
  | c :: rest =>
    if c = apostrophe then
      match closing? apostrophe (c :: rest) with
      | some ended => some ended
      | none => consText c <$> literalLines rest
    else if isPlain c ∨ c = '\n' then consText c <$> literalLines rest
    else none

/-- A string of several lines, behind its opening marks: a line end that follows these at once does
not belong to it. -/
def lines (body : List Char → Option (List Char × List Char)) : Reader String := do
  let _ ← optional newline
  let text ← (fun cs => body cs : Reader (List Char))
  pure (String.ofList text)

/-- A string on one line, behind its opening mark. -/
def oneLine (body : List Char → Option (List Char × List Char)) : Reader String := do
  let text ← (fun cs => body cs : Reader (List Char))
  pure (String.ofList text)

/-- A string of any kind. -/
def string : Reader String :=
  (exact ['"', '"', '"'] *> lines basicLines)
    <|> (exact ['"'] *> oneLine basicText)
    <|> (exact [apostrophe, apostrophe, apostrophe] *> lines literalLines)
    <|> (exact [apostrophe] *> oneLine literalText)

/-! ## Keys -/

/-- May the character stand in a key without quotes? -/
def isBare (c : Char) : Bool := c.isAlphanum || c == '_' || c == '-'

/-- One key: quoted, or bare and not empty. -/
def simpleKey : Reader String := do
  match ← peek with
  | some c =>
    if c = '"' then exact ['"'] *> oneLine basicText
    else if c = apostrophe then exact [apostrophe] *> oneLine literalText
    else
      let name ← span isBare
      if name.isEmpty then failure else pure (String.ofList name)
  | none => failure

/-- Keys joined by dots, at most so many. -/
def keyParts : Nat → Reader (List String)
  | 0 => failure
  | room + 1 => do
    blanks
    let part ← simpleKey
    blanks
    match ← peek with
    | some '.' => do
      exact ['.']
      let more ← keyParts room
      pure (part :: more)
    | _ => pure [part]

/-- Keys and values nest less than this deep. -/
def depthLimit : Nat := 80

/-- A key, possibly dotted, as the path before its last part and that part. -/
def key : Reader (List String × String) := do
  let parts ← keyParts (depthLimit - 1)
  match parts.getLast? with
  | some last => pure (parts.dropLast, last)
  | none => failure

end GuestBridge.Toml
