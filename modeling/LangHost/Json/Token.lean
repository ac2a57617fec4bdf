import LangHost.Json.Basic
/-!
# Tokens

The text of a structured value is a sequence of brackets, separators, quoted texts and atoms
(numbers and the three names). The lexer reads one character at a time.
-/

namespace LangHost.Json

/-- A piece of the text of a value. -/
inductive Token where
  | openArr
  | closeArr
  | openObj
  | closeObj
  | comma
  | colon
  /-- A quoted text, with its escapes resolved. -/
  | text (s : String)
  /-- A number or a name, as it is spelled. -/
  | atom (spelling : List Char)

namespace Token

/-- Where the lexer stands between two characters. What it has read of a token is kept in reverse. -/
inductive Mode where
  | between
  | atom (read : List Char)
  | text (read : List Char)
  | escape (read : List Char)
  /-- Inside a `\u` escape, with the number of digits still to come, their value so far, and the
  first half of a surrogate pair if this is the second. -/
  | code (read : List Char) (left value : Nat) (high : Option Nat)
  /-- After the first half of a surrogate pair, before the backslash of the second. -/
  | pair (read : List Char) (high : Nat)
  /-- After that backslash. -/
  | pairEscape (read : List Char) (high : Nat)

/-- The lexer: its mode and the tokens it has read, latest first. -/
structure Lexer where
  mode : Mode
  tokens : List Token

/-- The value of a hexadecimal digit. -/
def hexValue? (c : Char) : Option Nat :=
  if '0' ≤ c ∧ c ≤ '9' then some (c.toNat - 48)
  else if 'a' ≤ c ∧ c ≤ 'f' then some (c.toNat - 87)
  else if 'A' ≤ c ∧ c ≤ 'F' then some (c.toNat - 55)
  else none

/-- The character a one-letter escape stands for. -/
def escaped? : Char → Option Char
  | '"' => some '"'
  | '\\' => some '\\'
  | '/' => some '/'
  | 'b' => some '\x08'
  | 'f' => some '\x0c'
  | 'n' => some '\n'
  | 'r' => some '\r'
  | 't' => some '\t'
  | _ => none

/-- What a finished `\u` escape leads to. A first half of a surrogate pair must be followed by a
second half, and a second half must follow a first. -/
def ofCode? (read : List Char) (value : Nat) : Option Nat → Option Mode
  | none =>
    if 0xD800 ≤ value ∧ value < 0xDC00 then some (.pair read value)
    else if 0xDC00 ≤ value ∧ value < 0xE000 then none
    else some (.text (Char.ofNat value :: read))
  | some high =>
    if 0xDC00 ≤ value ∧ value < 0xE000 then
      some (.text (Char.ofNat (0x10000 + (high - 0xD800) * 0x400 + (value - 0xDC00)) :: read))
    else none

/-- A single-character token. -/
def punctuation? : Char → Option Token
  | '[' => some .openArr
  | ']' => some .closeArr
  | '\x7b' => some .openObj
  | '\x7d' => some .closeObj
  | ',' => some .comma
  | ':' => some .colon
  | _ => none

/-- White space between tokens. -/
def isGap (c : Char) : Bool := c == ' ' || c == '\n' || c == '\r' || c == '\t'

/-- One character outside of quotes, after the given tokens. -/
def start (tokens : List Token) (c : Char) : Lexer :=
  if isGap c then ⟨.between, tokens⟩
  else if c = '"' then ⟨.text [], tokens⟩
  else match punctuation? c with
    | some t => ⟨.between, t :: tokens⟩
    | none => ⟨.atom [c], tokens⟩

/-- The lexer after one more character, if the character can stand there. -/
def Lexer.step (l : Lexer) (c : Char) : Option Lexer :=
  match l.mode with
  | .between => some (start l.tokens c)
  | .atom read =>
    if isGap c || c == '"' || (punctuation? c).isSome then
      some (start (.atom read.reverse :: l.tokens) c)
    else some ⟨.atom (c :: read), l.tokens⟩
  | .text read =>
    if c = '"' then some ⟨.between, .text (String.ofList read.reverse) :: l.tokens⟩
    else if c = '\\' then some ⟨.escape read, l.tokens⟩
    else if c.toNat < 0x20 then none
    else some ⟨.text (c :: read), l.tokens⟩
  | .escape read =>
    if c = 'u' then some ⟨.code read 4 0 none, l.tokens⟩
    else (escaped? c).map fun d => ⟨.text (d :: read), l.tokens⟩
  | .code read left value high => do
    let value := value * 16 + (← hexValue? c)
    if left ≤ 1 then
      let mode ← ofCode? read value high
      some ⟨mode, l.tokens⟩
    else some ⟨.code read (left - 1) value high, l.tokens⟩
  | .pair read high => if c = '\\' then some ⟨.pairEscape read high, l.tokens⟩ else none
  | .pairEscape read high => if c = 'u' then some ⟨.code read 4 0 (some high), l.tokens⟩ else none

/-- The tokens of a text, if it can be cut into tokens. -/
def scan (cs : List Char) : Option (List Token) := do
  let l ← cs.foldlM Lexer.step ⟨.between, []⟩
  match l.mode with
  | .between => some l.tokens.reverse
  | .atom read => some (.atom read.reverse :: l.tokens).reverse
  | _ => none

end Token

end LangHost.Json
