/-!
# Resource identifiers

The generic syntax of absolute identifiers: a scheme, then an authority after two slashes, a path,
a query after a question mark and a fragment after a number sign, all but the scheme and the path
optional. Characters outside ASCII have to be written as percent-encoded octets.

The only question answered here is whether a text is such an identifier, and if it is not, where
it stops being one. Identifiers are compared and shown as they are written.
-/

namespace LangHost

/-- Why a text is no identifier, with the index at which it stops being one. -/
inductive UriError where
  | unexpected (index : Nat)
  /-- A percent sign is not followed by two hexadecimal digits. -/
  | badOctet (index : Nat)
  /-- What starts as an IPv6 address is none. -/
  | badAddress (index : Nat)
  deriving DecidableEq, Repr

/-- The text of the error. -/
def UriError.message : UriError → String
  | .unexpected i => "unexpected character at index " ++ toString i
  | .badOctet i => "invalid percent-encoded octet at index " ++ toString i
  | .badAddress i => "invalid IPv6 address at index " ++ toString i

namespace Uri

/-! ## Classes of characters -/

def isHexDigit (c : Char) : Bool :=
  c.isDigit || ('a' ≤ c && c ≤ 'f') || ('A' ≤ c && c ≤ 'F')

def isSchemeChar (c : Char) : Bool := c.isAlphanum || ['+', '-', '.'].contains c

/-- The characters that stand for themselves everywhere. -/
def isUnreserved (c : Char) : Bool := c.isAlphanum || ['-', '.', '_', '~'].contains c

/-- The characters that divide a part into smaller ones. -/
def isSubDelimiter (c : Char) : Bool :=
  ['!', '$', '&', '\x27', '(', ')', '*', '+', ',', ';', '='].contains c

/-- The characters of a registered name. -/
def isNameChar (c : Char) : Bool := isUnreserved c || isSubDelimiter c

/-- The characters of a user's name and password, which are also those of a host with the
number of a service. -/
def isUserChar (c : Char) : Bool := isNameChar c || c == ':'

def isPathChar (c : Char) : Bool := isUserChar c || c == '@' || c == '/'

/-- The characters of a query and of a fragment. -/
def isQueryChar (c : Char) : Bool := isPathChar c || c == '?'

/-! ## Reading -/

/-- A place in a text: how many characters lie before it, and those after it. -/
structure Cursor where
  index : Nat
  rest : List Char

/-- The place some characters further on. -/
def Cursor.skip (c : Cursor) (n : Nat) : Cursor := ⟨c.index + n, c.rest.drop n⟩

/-- The place after all characters of a class. -/
def Cursor.skipWhile (c : Cursor) (p : Char → Bool) : Cursor :=
  ⟨c.index + (c.rest.takeWhile p).length, c.rest.dropWhile p⟩

/-- The place after the given character, if it comes next. -/
def Cursor.eat? (c : Cursor) (x : Char) : Option Cursor :=
  match c.rest with
  | [] => none
  | y :: rest => if y = x then some ⟨c.index + 1, rest⟩ else none

/-- The place after the given character, which has to come next. -/
def Cursor.expect (c : Cursor) (x : Char) : Except UriError Cursor :=
  match c.eat? x with
  | some c => .ok c
  | none => .error (.unexpected c.index)

/-- The place after all characters of a class, one of which has to come next. -/
def Cursor.expectSome (c : Cursor) (p : Char → Bool) : Except UriError Cursor :=
  if c.rest.head?.any p then .ok (c.skipWhile p) else .error (.unexpected c.index)

/-- The place after all characters of a class and all encoded octets. -/
def scan (p : Char → Bool) : Nat → List Char → Except UriError Cursor
  | i, [] => .ok ⟨i, []⟩
  | i, '%' :: a :: b :: rest =>
    if isHexDigit a && isHexDigit b then scan p (i + 3) rest else .error (.badOctet i)
  | i, c :: rest =>
    if c = '%' then .error (.badOctet i)
    else if p c then scan p (i + 1) rest
    else .ok ⟨i, c :: rest⟩

/-- The place after all characters of a class and all encoded octets. -/
def Cursor.scan (c : Cursor) (p : Char → Bool) : Except UriError Cursor := Uri.scan p c.index c.rest

/-! ## Addresses -/

/-- The place after a number up to 255 without zeros before it. -/
def octet? (c : Cursor) : Option Cursor :=
  let digits := (c.rest.takeWhile Char.isDigit).take 3
  match digits with
  | [] => none
  | '0' :: _ => some (c.skip 1)
  | _ => if Nat.ofDigitChars 10 digits 0 ≤ 255 then some (c.skip digits.length) else none

/-- The place after four numbers with points between them. -/
def ipv4? (c : Cursor) : Option Cursor := do
  let c ← octet? c
  let c ← octet? (← c.eat? '.')
  let c ← octet? (← c.eat? '.')
  octet? (← c.eat? '.')

/-- What comes next in an IPv6 address. -/
inductive Segment where
  /-- Up to four hexadecimal digits, after a colon or not. -/
  | group (colon : Bool)
  /-- Two colons, which stand for the groups left out. -/
  | gap
  /-- The start of an IPv4 address, after a colon or not. -/
  | ipv4 (colon : Bool)
  /-- A colon with nothing after it that belongs to an address. -/
  | colon
  /-- Nothing that belongs to an address. -/
  | stop

/-- What comes next in an IPv6 address, and the place after it. The digits of an IPv4 address are
not passed, and neither is the end of the text taken for the end of a group. -/
def segment (c : Cursor) : Segment × Cursor :=
  let colon := c.rest.head? == some ':'
  let c := if colon then c.skip 1 else c
  let n := ((c.rest.takeWhile isHexDigit).take 4).length
  match n, c.rest.drop n with
  | 0, [] => (if colon then .colon else .stop, c)
  | 0, x :: _ =>
    if !colon then (.stop, c) else if x = ':' then (.gap, c.skip 1) else (.colon, c)
  | 4, _ => (.group colon, c.skip 4)
  | n, [] => (.stop, c.skip n)
  | n, x :: _ => if x = '.' then (.ipv4 colon, c) else (.group colon, c.skip n)

/-- Whether so many groups make an address: all eight, or fewer with a gap somewhere. -/
def isComplete (groups : Nat) (gap : Option Nat) : Bool :=
  if gap.isNone then groups == 8 else decide (groups < 8)

/-- Whether the groups from here on complete an IPv6 address, and the place where that was found
out. An address has room for eight groups and a gap, and `room` is what is left of that. A colon
has to stand between two groups, and none before the first one or after a gap. -/
def groups : (room : Nat) → (count : Nat) → (gap : Option Nat) → Cursor → Bool × Cursor
  | 0, count, gap, c => (isComplete count gap, c)
  | room + 1, count, gap, c =>
    if count = 8 then (isComplete count gap, c)
    else
      match segment c with
      | (.group colon, c) =>
        if colon == (count == 0 || gap == some count) then (false, c)
        else groups room (count + 1) gap c
      | (.gap, c) => if gap.isSome then (false, c) else groups room count (some count) c
      | (.ipv4 colon, c) =>
        if count > 6 || colon == (gap == some count) then (false, c)
        else
          match ipv4? c with
          | none => (false, c)
          | some c => (isComplete (count + 2) gap, c)
      | (.colon, c) => (false, c)
      | (.stop, c) => (isComplete count gap, c)

/-- The place after an address of a later version of the protocol. -/
def laterAddress (c : Cursor) : Except UriError Cursor := do
  let c ← c.eat? 'v' <|> c.eat? 'V' |>.elim (.error (.unexpected c.index)) .ok
  let c ← (← c.expectSome isHexDigit).expect '.'
  c.expectSome isUserChar

/-- The place after an address in brackets, the first of which has been passed. -/
def literal (start : Cursor) : Except UriError Cursor := do
  let c ← match groups 9 0 none start with
    | (true, c) => .ok c
    | (false, c) =>
      if c.index = start.index then laterAddress start else .error (.badAddress start.index)
  c.expect ']'

/-! ## Parts of an identifier -/

/-- The place after a host. -/
def host (c : Cursor) : Except UriError Cursor :=
  match c.eat? '[' with
  | some c => literal c
  | none => c.scan isNameChar

/-- The place after the number of a service at a host, if there is one after a colon. -/
def serviceNumber (c : Cursor) : Cursor :=
  match c.eat? ':' with
  | some c => c.skipWhile Char.isDigit
  | none => c

/-- Whether a text that starts at the given index is the name of a host, perhaps with the number of
a service. -/
def checkHostName (start : Nat) (cs : List Char) : Except UriError Unit :=
  match cs.count ':' with
  | 0 => .ok ()
  | 1 =>
    let c := (Cursor.mk start cs).skipWhile (· ≠ ':')
    let c := (c.skip 1).skipWhile Char.isDigit
    if c.rest.isEmpty then .ok () else .error (.unexpected c.index)
  | _ => .error (.unexpected (start + (cs.length - 1 - cs.reverse.idxOf ':')))

/-- The place after an authority: a host, perhaps with a user before it and the number of a service
after it. -/
def authority (start : Cursor) : Except UriError Cursor := do
  let c ← start.scan isUserChar
  match c.eat? '@' with
  | some c => return serviceNumber (← host c)
  | none =>
    if c.index = start.index then
      match c.eat? '[' with
      | some c => return serviceNumber (← literal c)
      | none => return c
    else
      checkHostName start.index (start.rest.take (c.index - start.index))
      return c

/-- The place after a path that follows an authority: nothing, or a slash and more. -/
def absolutePath (start : Cursor) : Except UriError Cursor := do
  let c ← start.scan isPathChar
  if start.index < c.index && start.rest.head? != some '/' then .error (.unexpected start.index)
  return c

/-- The place after a part that starts with the given mark, if there is one. -/
def markedPart (mark : Char) (c : Cursor) : Except UriError Cursor :=
  match c.eat? mark with
  | some c => c.scan isQueryChar
  | none => .ok c

/-- The place after authority and path. -/
def hierarchy (c : Cursor) : Except UriError Cursor :=
  match c.rest with
  | '/' :: '/' :: _ => do absolutePath (← authority (c.skip 2))
  | _ => c.scan isPathChar

/-- The place after the scheme and its colon. A scheme starts with a letter. -/
def scheme (start : Cursor) : Except UriError Cursor := do
  let c ← (start.skipWhile isSchemeChar).expect ':'
  if start.rest.head?.any Char.isAlpha then return c else .error (.unexpected start.index)

/-- Whether a text is an identifier. -/
def check (s : String) : Except UriError Unit := do
  let c ← hierarchy (← scheme ⟨0, s.toList⟩)
  let c ← markedPart '#' (← markedPart '?' c)
  if c.rest.isEmpty then .ok () else .error (.unexpected c.index)

end Uri

end LangHost
