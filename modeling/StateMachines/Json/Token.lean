import StateMachines.Json.Escape
import StateMachines.Number.Numeral

/-! # JSON tokens

The scanner reads a text one character at a time. A run of characters that are neither blank, nor
punctuation, nor a quote is one bare word, and it has to be a literal or a number as a whole. What
a scanner has read so far is its state, so that reading a text in two parts is reading it at once
(`Scanner.run_append`).
-/

namespace StateMachines

namespace Json

/-- The words of a JSON text. -/
inductive Token
  | openArray
  | closeArray
  | openObject
  | closeObject
  | comma
  | colon
  | null
  | bool (b : Bool)
  | number (n : Numeral)
  /-- A string, or `none` if its escapes do not spell a text. -/
  | text (t : Option String)
deriving DecidableEq, Repr

/-- Space, tab, line feed and carriage return may stand between tokens. -/
def isBlank (c : Char) : Bool := c = ' ' || c = '\t' || c = '\n' || c = '\r'

/-- The token of a character that is one by itself. -/
def punctuation? : Char → Option Token
  | '[' => some .openArray
  | ']' => some .closeArray
  | '\x7b' => some .openObject
  | '\x7d' => some .closeObject
  | ',' => some .comma
  | ':' => some .colon
  | _ => none

/-! ## Bare words -/

/-- The digits at the front of a text, and the rest. -/
def spanDigits : List Char → List Digit × List Char
  | [] => ([], [])
  | c :: rest =>
    match Digit.ofChar? c with
    | some d => let (ds, after) := spanDigits rest; (d :: ds, after)
    | none => ([], c :: rest)

/-- Written digits are read back as long as no digit follows. -/
theorem spanDigits_chars (ds : List Digit) {rest : List Char}
    (stop : rest.head?.bind Digit.ofChar? = none) :
    spanDigits (ds.map Digit.char ++ rest) = (ds, rest) := by
  induction ds with
  | nil =>
    cases rest with
    | nil => rfl
    | cons c rest =>
      have stop : Digit.ofChar? c = none := stop
      simp [spanDigits, stop]
  | cons d ds ih => simp [spanDigits, ih]

/-- The whole part: digits without a needless zero in front. -/
def whole? (cs : List Char) : Option (Nat × List Char) :=
  match spanDigits cs with
  | ([], _) => none
  | ([d], rest) => some (d.val, rest)
  | (d :: ds, rest) => if d = .zero then none else some (ofDigits (d :: ds), rest)

/-- The fraction: nothing, or a point and at least one digit. -/
def fraction? : List Char → Option (List Digit × List Char)
  | '.' :: rest =>
    match spanDigits rest with
    | ([], _) => none
    | (ds, after) => some (ds, after)
  | cs => some ([], cs)

/-- The digits of an exponent, which end the word. -/
def exponentDigits? (cs : List Char) : Option Nat :=
  match spanDigits cs with
  | ([], _) => none
  | (ds, []) => some (ofDigits ds)
  | (_, _ :: _) => none

/-- An exponent after its `e`: a sign or none, and at least one digit. -/
def signedExponent? : List Char → Option Int
  | '-' :: rest => (exponentDigits? rest).map fun n => -(n : Int)
  | '+' :: rest => (exponentDigits? rest).map fun n => (n : Int)
  | rest => (exponentDigits? rest).map fun n => (n : Int)

/-- The exponent: nothing, or an `e` of either case with a whole number. -/
def exponent? : List Char → Option (Option Int)
  | [] => some none
  | 'e' :: rest | 'E' :: rest => (signedExponent? rest).map some
  | _ => none

/-- The numeral that a word spells, after its sign. -/
def unsigned? (negative : Bool) (cs : List Char) : Option Numeral := do
  let (whole, rest) ← whole? cs
  let (fraction, rest) ← fraction? rest
  let exponent ← exponent? rest
  some ⟨negative, whole, fraction, exponent⟩

/-- The numeral that a word spells. -/
def numeral? : List Char → Option Numeral
  | '-' :: rest => unsigned? true rest
  | cs => unsigned? false cs

/-- The token that a bare word is. -/
def word? (cs : List Char) : Option Token :=
  if cs = ['n', 'u', 'l', 'l'] then some .null
  else if cs = ['t', 'r', 'u', 'e'] then some (.bool true)
  else if cs = ['f', 'a', 'l', 's', 'e'] then some (.bool false)
  else (numeral? cs).map .number

/-! ## The scanner -/

/-- Where in a token the scanner stands; characters and units read so far are kept last first. -/
inductive Scanner.Place
  | between
  | word (chars : List Char)
  | string (units : List Nat)
  | escape (units : List Nat)
  /-- After `\u`: what the digits read so far are worth, and how many are missing. -/
  | unit (units : List Nat) (value : Nat) (missing : Nat)
deriving DecidableEq, Repr

/-- What a scanner has read: whole tokens, last first, and its place in the next one. -/
structure Scanner where
  tokens : List Token
  place : Scanner.Place
deriving DecidableEq, Repr

namespace Scanner

/-- Nothing has been read. -/
def start : Scanner := ⟨[], .between⟩

/-- Read a character between two tokens. -/
def stepBetween (tokens : List Token) (c : Char) : Scanner :=
  if isBlank c then ⟨tokens, .between⟩
  else if c = '"' then ⟨tokens, .string []⟩
  else
    match punctuation? c with
    | some token => ⟨token :: tokens, .between⟩
    | none => ⟨tokens, .word [c]⟩

/-- The character ends a bare word. -/
def endsWord (c : Char) : Bool := isBlank c || c = '"' || (punctuation? c).isSome

/-- Read a character. -/
def step (s : Scanner) (c : Char) : Option Scanner :=
  match s.place with
  | .between => some (stepBetween s.tokens c)
  | .word chars =>
    if endsWord c then (word? chars.reverse).map fun token => stepBetween (token :: s.tokens) c
    else some ⟨s.tokens, .word (c :: chars)⟩
  | .string units =>
    if c = '"' then
      some ⟨.text ((joinUnits? units.reverse).map .ofList) :: s.tokens, .between⟩
    else if c = '\\' then some ⟨s.tokens, .escape units⟩
    else if c.toNat < 32 then none
    else some ⟨s.tokens, .string (c.toNat :: units)⟩
  | .escape units =>
    if c = 'u' then some ⟨s.tokens, .unit units 0 4⟩
    else (shortEscape? c).map fun plain => ⟨s.tokens, .string (plain.toNat :: units)⟩
  | .unit units value missing =>
    (Hexadecimal.digit? c).map fun digit =>
      let value := 16 * value + digit.val
      if missing ≤ 1 then ⟨s.tokens, .string (value :: units)⟩
      else ⟨s.tokens, .unit units value (missing - 1)⟩

/-- Read a text. -/
def run (s : Scanner) (cs : List Char) : Option Scanner := cs.foldlM step s

/-- The tokens of a text that is over. -/
def finish (s : Scanner) : Option (List Token) :=
  match s.place with
  | .between => some s.tokens.reverse
  | .word chars => (word? chars.reverse).map fun token => (token :: s.tokens).reverse
  | _ => none

theorem run_append (s : Scanner) (front back : List Char) :
    s.run (front ++ back) = (s.run front).bind fun t => t.run back := by
  simp [run]

end Scanner

/-- The tokens of a text. -/
def tokens? (cs : List Char) : Option (List Token) := do
  let s ← Scanner.start.run cs
  s.finish

end Json

end StateMachines
