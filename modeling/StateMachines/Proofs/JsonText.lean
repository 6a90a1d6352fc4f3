import StateMachines.Json.Reader
import StateMachines.Json.Writer
import StateMachines.Proofs.Numeral

/-! # Written trees read back

The scanner finds in the indented characters of a tree its tokens, and the builder makes of the
tokens the tree. A bare word is over only when the character after it comes, so the scanner is said
to *hold* tokens of which the last one may still be open.
-/

namespace StateMachines

namespace Json

/-! ## Strings -/

/-- Plain characters are units that join to themselves: no character is half of a pair. -/
theorem joinUnits?_map_toNat (cs : List Char) : joinUnits? (cs.map Char.toNat) = some cs := by
  have whole (c : Char) : isHighSurrogate c.toNat = false ∧ isLowSurrogate c.toNat = false := by
    have valid := c.valid
    simp only [UInt32.isValidChar, Nat.isValidChar] at valid
    have : c.val.toNat = c.toNat := rfl
    simp only [isHighSurrogate, isLowSurrogate, Bool.and_eq_false_iff, decide_eq_false_iff_not]
    omega
  induction cs with
  | nil => rfl
  | cons c rest ih =>
    cases rest with
    | nil => simp [joinUnits?, whole c]
    | cons d rest =>
      simp only [List.map_cons] at ih ⊢
      simp [joinUnits?, whole c, ih]

namespace Scanner

variable {tokens : List Token} {units : List Nat}

theorem run_cons (s : Scanner) (c : Char) (rest : List Char) :
    s.run (c :: rest) = (s.step c).bind fun t => t.run rest := by
  simp [run]

/-- Hexadecimal digits count towards the unit that they belong to. -/
private theorem run_fixed (width n value : Nat) {missing : Nat} (more : 0 < missing) :
    run ⟨tokens, .unit units value (width + missing)⟩ (Hexadecimal.fixed width n) =
      some ⟨tokens, .unit units (16 ^ width * value + n % 16 ^ width) missing⟩ := by
  induction width generalizing n missing with
  | zero => simp [Hexadecimal.fixed, run, Nat.mod_one]
  | succ width ih =>
    have front := ih (n / 16) (Nat.succ_pos missing)
    rw [show width + 1 + missing = width + (missing + 1) by omega, Hexadecimal.fixed, run_append,
      front]
    have worth : 16 * (16 ^ width * value + n / 16 % 16 ^ width) + n % 16 =
        16 ^ (width + 1) * value + n % 16 ^ (width + 1) := by
      rw [Nat.pow_succ', Nat.mod_mul, Nat.mul_add, Nat.mul_assoc]
      omega
    simp [run, step, Fin.ofNat, worth, show ¬ missing + 1 ≤ 1 by omega]

/-- Four hexadecimal digits end a unit. -/
theorem run_fixed_four (n : Nat) :
    run ⟨tokens, .unit units 0 4⟩ (Hexadecimal.fixed 4 n) =
      some ⟨tokens, .string (n % 16 ^ 4 :: units)⟩ := by
  have front : run ⟨tokens, .unit units 0 (3 + 1)⟩ (Hexadecimal.fixed 3 (n / 16)) = _ :=
    run_fixed 3 (n / 16) 0 Nat.one_pos
  have worth : 16 * (n / 16 % 16 ^ 3) + n % 16 = n % 16 ^ 4 := by omega
  rw [Hexadecimal.fixed, run_append, front]
  simp [run, step, Fin.ofNat, worth]

/-- A written character is read as its own unit. -/
theorem run_escapedChar (c : Char) :
    run ⟨tokens, .string units⟩ (escapedChar c) = some ⟨tokens, .string (c.toNat :: units)⟩ := by
  have named {n : Nat} (same : c.toNat = n) : c = Char.ofNat n := by rw [← same, Char.ofNat_toNat]
  unfold escapedChar
  split
  · next quote => subst quote; rfl
  split
  · next backslash => subst backslash; rfl
  split
  · next backspace => rw [named backspace]; rfl
  split
  · next feed => rw [named feed]; rfl
  split
  · next line => subst line; rfl
  split
  · next carriage => subst carriage; rfl
  split
  · next tab => subst tab; rfl
  split
  · next control =>
    have whole : c.toNat % 16 ^ 4 = c.toNat := Nat.mod_eq_of_lt (by omega)
    have opened : step ⟨tokens, .string units⟩ '\\' = some ⟨tokens, .escape units⟩ := rfl
    have marked : step ⟨tokens, .escape units⟩ 'u' = some ⟨tokens, .unit units 0 4⟩ := rfl
    simp only [run_cons, opened, marked, Option.bind_some, run_fixed_four, whole]
  · next quote backslash _ _ _ _ _ plain =>
    simp [run, step, quote, backslash, plain]

/-- A written string is read as one token. -/
theorem run_stringChars (s : String) :
    run ⟨tokens, .between⟩ (stringChars s) = some ⟨.text (some s) :: tokens, .between⟩ := by
  have body (cs : List Char) (units : List Nat) :
      run ⟨tokens, .string units⟩ (cs.flatMap escapedChar) =
        some ⟨tokens, .string ((cs.map Char.toNat).reverse ++ units)⟩ := by
    induction cs generalizing units with
    | nil => rfl
    | cons c rest ih =>
      rw [List.flatMap_cons, run_append, run_escapedChar, Option.bind_some, ih]
      simp
  have opened : step ⟨tokens, .between⟩ '"' = some ⟨tokens, .string []⟩ := rfl
  rw [stringChars, List.cons_append, run_cons, opened, Option.bind_some, run_append, body,
    Option.bind_some]
  simp [run, step, joinUnits?_map_toNat]

/-! ## Bare words -/

/-- The scanner has read the tokens, last first; the last one may be a bare word that goes on. -/
inductive Holds : Scanner → List Token → Prop
  | closed (tokens : List Token) : Holds ⟨tokens, .between⟩ tokens
  | word {chars : List Char} {token : Token} (tokens : List Token)
    (read : word? chars.reverse = some token) : Holds ⟨tokens, .word chars⟩ (token :: tokens)

namespace Holds

variable {s : Scanner}

/-- A character that ends a bare word is read as if nothing were open. -/
theorem step (holds : s.Holds tokens) {c : Char} (ends : endsWord c = true) :
    s.step c = some (stepBetween tokens c) := by
  cases holds with
  | closed => rfl
  | word tokens read => simp [Scanner.step, ends, read]

theorem finish (holds : s.Holds tokens) : s.finish = some tokens.reverse := by
  cases holds with
  | closed => rfl
  | word tokens read => simp [Scanner.finish, read]

/-- The start of a line ends a bare word and is no token. -/
theorem run_newline (holds : s.Holds tokens) (depth : Nat) (rest : List Char) :
    s.run (newline depth ++ rest) = run ⟨tokens, .between⟩ rest := by
  have blanks (n : Nat) :
      run ⟨tokens, .between⟩ (List.replicate n ' ' ++ rest) = run ⟨tokens, .between⟩ rest := by
    induction n with
    | zero => rfl
    | succ n ih =>
      have blank : Scanner.step ⟨tokens, .between⟩ ' ' = some ⟨tokens, .between⟩ := rfl
      rw [List.replicate_succ, List.cons_append, run_cons, blank, Option.bind_some, ih]
  have broken : s.step '\n' = some ⟨tokens, .between⟩ := holds.step (by decide)
  rw [newline, List.cons_append, run_cons, broken, Option.bind_some, blanks]

end Holds

/-- Characters of which none ends a bare word are one word. -/
theorem run_word {c : Char} {rest : List Char}
    (whole : (c :: rest).all (fun d => !endsWord d) = true) :
    run ⟨tokens, .between⟩ (c :: rest) = some ⟨tokens, .word (c :: rest).reverse⟩ := by
  have inside : ∀ d ∈ c :: rest, endsWord d = false := by simpa using whole
  have goesOn (cs chars : List Char) (inside : ∀ d ∈ cs, endsWord d = false) :
      run ⟨tokens, .word chars⟩ cs = some ⟨tokens, .word (cs.reverse ++ chars)⟩ := by
    induction cs generalizing chars with
    | nil => rfl
    | cons d cs ih =>
      have stays : step ⟨tokens, .word chars⟩ d = some ⟨tokens, .word (d :: chars)⟩ := by
        simp [step, inside d (by simp)]
      rw [run_cons, stays, Option.bind_some, ih _ fun e member => inside e (by simp [member])]
      simp
  have begins : step ⟨tokens, .between⟩ c = some ⟨tokens, .word [c]⟩ := by
    have plain := inside c (by simp)
    simp only [endsWord, Bool.or_eq_false_iff, decide_eq_false_iff_not, Option.isSome_eq_false_iff,
      Option.isNone_iff_eq_none] at plain
    simp [step, stepBetween, plain]
  rw [run_cons, begins, Option.bind_some, goesOn _ _ fun d member => inside d (by simp [member])]
  simp

end Scanner

/-- No character of a numeral ends a bare word. -/
theorem endsWord_of_mem_chars {n : Numeral} {c : Char} (member : c ∈ n.chars) :
    Scanner.endsWord c = false := by
  have digit (d : Digit) : Scanner.endsWord d.char = false := by revert d; decide
  have ofDigits {ds : List Digit} (member : c ∈ ds.map Digit.char) :
      Scanner.endsWord c = false := by
    obtain ⟨d, -, rfl⟩ := List.mem_map.mp member
    exact digit d
  simp only [Numeral.chars, List.mem_append] at member
  rcases member with ((sign | whole) | fraction) | exponent
  · split at sign <;> simp_all
    decide
  · exact ofDigits whole
  · split at fraction
    · simp at fraction
    · rcases List.mem_cons.mp fraction with rfl | fraction
      · decide
      · exact ofDigits fraction
  · split at exponent
    · simp at exponent
    · simp only [Numeral.exponentChars, List.mem_cons] at exponent
      rcases exponent with rfl | rfl | exponent
      · decide
      · split <;> decide
      · exact ofDigits exponent

theorem word?_chars (n : Numeral) : word? n.chars = some (.number n) := by
  have read := numeral?_chars n
  have unlike {cs : List Char} (noNumeral : numeral? cs = none) : n.chars ≠ cs := by
    rintro rfl
    simp [noNumeral] at read
  rw [word?, if_neg (unlike (by decide)), if_neg (unlike (by decide)), if_neg (unlike (by decide)),
    read]
  rfl

/-! ## Trees -/

mutual

/-- Every string and every name in the tree spells a text. -/
def isSpelled : Json → Bool
  | text t => t.isSome
  | array items => areSpelled items
  | object members => membersSpelled members
  | _ => true

def areSpelled : List Json → Bool
  | [] => true
  | item :: rest => item.isSpelled && areSpelled rest

def membersSpelled : List (Option String × Json) → Bool
  | [] => true
  | (name, value) :: rest => name.isSome && value.isSpelled && membersSpelled rest

end

mutual

/-- The tokens of a tree. -/
def tokens : Json → List Token
  | null => [.null]
  | bool b => [.bool b]
  | number n => [.number n]
  | text t => [.text t]
  | array items => .openArray :: itemTokens true items
  | object members => .openObject :: memberTokens true members

/-- The tokens of the items of an array and its end. -/
def itemTokens (first : Bool) : List Json → List Token
  | [] => [.closeArray]
  | item :: rest => (if first then [] else [.comma]) ++ item.tokens ++ itemTokens false rest

/-- The tokens of the members of an object and its end. -/
def memberTokens (first : Bool) : List (Option String × Json) → List Token
  | [] => [.closeObject]
  | (name, value) :: rest =>
    (if first then [] else [.comma]) ++ .text name :: .colon :: value.tokens
      ++ memberTokens false rest

end

namespace Scanner

variable {tokens : List Token}

/-- The characters of a value without parts are its token. -/
theorem run_leafChars {j : Json} (spelled : j.isSpelled = true)
    (noArray : ∀ items, j ≠ .array items) (noObject : ∀ members, j ≠ .object members) :
    ∃ s, run ⟨tokens, .between⟩ j.leafChars = some s ∧ s.Holds (j.tokens.reverse ++ tokens) := by
  have word {token : Token} {c : Char} {rest : List Char}
      (inside : (c :: rest).all (fun d => !endsWord d) = true)
      (read : word? (c :: rest) = some token) :
      ∃ s, run ⟨tokens, .between⟩ (c :: rest) = some s ∧ s.Holds (token :: tokens) :=
    ⟨_, run_word inside, .word tokens (by rwa [List.reverse_reverse])⟩
  cases j with
  | null => exact word (by decide) rfl
  | bool b => cases b <;> exact word (by decide) rfl
  | number n =>
    have read := word?_chars n
    have inside : n.chars.all (fun d => !endsWord d) = true := by
      simp only [List.all_eq_true, Bool.not_eq_true']
      exact fun d member => endsWord_of_mem_chars member
    rw [leafChars]
    cases shape : n.chars with
    | nil => simp [shape, word?, numeral?, unsigned?, whole?, spanDigits] at read
    | cons c rest =>
      rw [shape] at read inside
      exact word inside read
  | text t =>
    cases t with
    | none => simp [isSpelled] at spelled
    | some t => exact ⟨_, run_stringChars t, .closed _⟩
  | array items => exact absurd rfl (noArray items)
  | object members => exact absurd rfl (noObject members)

/-- A comma is read as one token, wherever a bare word may end. -/
private theorem run_separator {s : Scanner} (holds : s.Holds tokens) (first : Bool) (depth : Nat)
    (rest : List Char) :
    s.run ((if first then [] else [',']) ++ newline depth ++ rest) =
      run ⟨(if first then [] else [.comma]) ++ tokens, .between⟩ rest := by
  cases first with
  | true => simpa using holds.run_newline depth rest
  | false =>
    have comma : s.step ',' = some ⟨.comma :: tokens, .between⟩ := holds.step (by decide)
    simpa [run_cons, comma] using (Holds.closed (.comma :: tokens)).run_newline depth rest

/-- The mark at the end of a container, on a line of its own unless the container is empty. -/
private theorem run_closing {s : Scanner} (holds : s.Holds tokens) (first : Bool) (depth : Nat)
    {c : Char} {token : Token} (mark : punctuation? c = some token) (notBlank : isBlank c = false)
    (noQuote : c ≠ '"') :
    s.run ((if first then [] else newline depth) ++ [c]) = some ⟨token :: tokens, .between⟩ := by
  have closed : stepBetween tokens c = ⟨token :: tokens, .between⟩ := by
    simp [stepBetween, notBlank, noQuote, mark]
  cases first with
  | true =>
    have ended := holds.step (c := c) (by simp [endsWord, mark])
    simp [run, ended, closed]
  | false =>
    rw [if_neg (by decide), holds.run_newline]
    simp [run, step, closed]

mutual

/-- The indented characters of a tree are its tokens. -/
theorem run_indentedChars (tokens : List Token) (depth : Nat) :
    (j : Json) → j.isSpelled = true →
      ∃ s, run ⟨tokens, .between⟩ (j.indentedChars depth) = some s ∧
        s.Holds (j.tokens.reverse ++ tokens)
  | .array items, spelled => by
    have opened : step ⟨tokens, .between⟩ '[' = some ⟨.openArray :: tokens, .between⟩ := rfl
    refine ⟨_, ?_, .closed _⟩
    rw [indentedChars, run_cons, opened, Option.bind_some,
      run_indentedItems depth true items spelled (.closed _)]
    simp [Json.tokens]
  | .object members, spelled => by
    have opened : step ⟨tokens, .between⟩ '\x7b' = some ⟨.openObject :: tokens, .between⟩ := rfl
    refine ⟨_, ?_, .closed _⟩
    rw [indentedChars, run_cons, opened, Option.bind_some,
      run_indentedMembers depth true members spelled (.closed _)]
    simp [Json.tokens]
  | .null, spelled => run_leafChars spelled nofun nofun
  | .bool _, spelled => run_leafChars spelled nofun nofun
  | .number _, spelled => run_leafChars spelled nofun nofun
  | .text _, spelled => run_leafChars spelled nofun nofun

theorem run_indentedItems {tokens : List Token} (depth : Nat) (first : Bool) {s : Scanner} :
    (items : List Json) → areSpelled items = true → s.Holds tokens →
      s.run (indentedItems depth first items) =
        some ⟨(itemTokens first items).reverse ++ tokens, .between⟩
  | [], _, holds => run_closing holds first depth rfl rfl (by decide)
  | item :: rest, spelled, holds => by
    simp only [areSpelled, Bool.and_eq_true] at spelled
    obtain ⟨t, read, after⟩ :=
      run_indentedChars ((if first then [] else [.comma]) ++ tokens) (depth + 1) item spelled.1
    rw [indentedItems, List.append_assoc, run_separator holds, run_append, read, Option.bind_some,
      run_indentedItems depth false rest spelled.2 after]
    cases first <;> simp [itemTokens]

theorem run_indentedMembers {tokens : List Token} (depth : Nat) (first : Bool) {s : Scanner} :
    (members : List (Option String × Json)) → membersSpelled members = true → s.Holds tokens →
      s.run (indentedMembers depth first members) =
        some ⟨(memberTokens first members).reverse ++ tokens, .between⟩
  | [], _, holds => run_closing holds first depth rfl rfl (by decide)
  | (none, _) :: _, spelled, _ => by simp [membersSpelled] at spelled
  | (some name, value) :: rest, spelled, holds => by
    simp only [membersSpelled, Option.isSome_some, Bool.true_and, Bool.and_eq_true] at spelled
    have colon (tokens : List Token) :
        step ⟨tokens, .between⟩ ':' = some ⟨.colon :: tokens, .between⟩ := rfl
    have blank (tokens : List Token) : step ⟨tokens, .between⟩ ' ' = some ⟨tokens, .between⟩ := rfl
    obtain ⟨t, read, after⟩ := run_indentedChars
      (.colon :: .text (some name) :: ((if first then [] else [.comma]) ++ tokens)) (depth + 1)
      value spelled.1
    rw [indentedMembers, List.append_assoc, List.append_assoc, run_separator holds, run_append,
      Option.getD_some, run_stringChars, Option.bind_some, List.cons_append, List.cons_append,
      run_cons, colon, Option.bind_some, run_cons, blank, Option.bind_some, run_append, read,
      Option.bind_some, run_indentedMembers depth false rest spelled.2 after]
    cases first <;> simp [memberTokens]

end

end Scanner

namespace Builder

mutual

/-- The tokens of a tree build it. -/
theorem run_tokens (frames : List Frame) {expects : Expects}
    (ready : expects = .value ∨ expects = .firstValue) :
    (j : Json) → run ⟨frames, expects, none⟩ j.tokens = some (put frames j)
  | .array items => by
    have opened : step ⟨frames, expects, none⟩ .openArray =
        some ⟨.array [] :: frames, .firstValue, none⟩ := by
      rcases ready with rfl | rfl <;> rfl
    have inside := run_itemTokens frames [] true items
    simpa [Json.tokens, run, opened] using inside
  | .object members => by
    have opened : step ⟨frames, expects, none⟩ .openObject =
        some ⟨.object [] none :: frames, .firstName, none⟩ := by
      rcases ready with rfl | rfl <;> rfl
    have inside := run_memberTokens frames [] true members
    simpa [Json.tokens, run, opened] using inside
  | .null => by rcases ready with rfl | rfl <;> rfl
  | .bool _ => by rcases ready with rfl | rfl <;> rfl
  | .number _ => by rcases ready with rfl | rfl <;> rfl
  | .text _ => by rcases ready with rfl | rfl <;> rfl

theorem run_itemTokens (frames : List Frame) (before : List Json) (first : Bool) :
    (items : List Json) →
      run ⟨.array before :: frames, if first then .firstValue else .next, none⟩
        (itemTokens first items) = some (put frames (.array (before.reverse ++ items)))
  | [] => by cases first <;> simp [itemTokens, run, step, closeArray?]
  | item :: rest => by
    have after := run_itemTokens frames (item :: before) false rest
    have here (expects : Expects) (ready : expects = .value ∨ expects = .firstValue) :=
      run_tokens (.array before :: frames) ready item
    have placed : put (.array before :: frames) item =
        ⟨.array (item :: before) :: frames, .next, none⟩ := rfl
    cases first with
    | true =>
      simp only [itemTokens, if_true, List.nil_append, run_append, here _ (.inr rfl), placed,
        Option.bind_some]
      simpa using after
    | false =>
      have comma : run ⟨.array before :: frames, .next, none⟩ [.comma] =
          some ⟨.array before :: frames, .value, none⟩ := rfl
      simp only [itemTokens, Bool.false_eq_true, if_false, run_append, comma, Option.bind_some,
        here _ (.inl rfl), placed]
      simpa using after

theorem run_memberTokens (frames : List Frame) (before : List (Option String × Json))
    (first : Bool) :
    (members : List (Option String × Json)) →
      run ⟨.object before none :: frames, if first then .firstName else .next, none⟩
        (memberTokens first members) = some (put frames (.object (before.reverse ++ members)))
  | [] => by cases first <;> simp [memberTokens, run, step, closeObject?]
  | (name, value) :: rest => by
    have after := run_memberTokens frames ((name, value) :: before) false rest
    have here := run_tokens (.object before name :: frames) (.inl rfl) value
    have placed : put (.object before name :: frames) value =
        ⟨.object ((name, value) :: before) none :: frames, .next, none⟩ := rfl
    have named : run ⟨.object before none :: frames, if first then .firstName else .next, none⟩
        ((if first then [] else [.comma]) ++ [.text name, .colon]) =
          some ⟨.object before name :: frames, .value, none⟩ := by
      cases first <;> rfl
    have shape : memberTokens first ((name, value) :: rest) =
        ((if first then [] else [.comma]) ++ [.text name, .colon]) ++
          (value.tokens ++ memberTokens false rest) := by
      simp [memberTokens]
    rw [shape, run_append, named, Option.bind_some, run_append, here, Option.bind_some, placed]
    simpa using after

end

end Builder

/-- Characters in which the scanner finds the tokens of a tree are read as the tree. -/
theorem ofChars?_of_holds {j : Json} {cs : List Char} {s : Scanner}
    (read : Scanner.run ⟨[], .between⟩ cs = some s) (holds : s.Holds (j.tokens.reverse ++ [])) :
    ofChars? cs = some j := by
  have scanned : tokens? cs = some j.tokens := by
    simp [tokens?, Scanner.start, read, holds.finish]
  have built : Builder.start.run j.tokens = some (Builder.put [] j) :=
    Builder.run_tokens [] (.inl rfl) j
  simp [ofChars?, scanned, built, Builder.put]

/-- A tree whose strings spell texts is read from its indented characters. -/
theorem ofChars?_indentedChars {j : Json} (spelled : j.isSpelled = true) (depth : Nat) :
    ofChars? (j.indentedChars depth) = some j := by
  obtain ⟨s, read, holds⟩ := Scanner.run_indentedChars [] depth j spelled
  exact ofChars?_of_holds read holds

end Json

end StateMachines
