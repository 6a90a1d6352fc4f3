import StateMachines.Proofs.JsonText

/-! # Compact texts read back

In the compact text of a tree nothing stands between tokens, so a bare word is over only when a
comma or the mark at the end of its container comes. The tokens are those of the indented text.
-/

namespace StateMachines

namespace Json

namespace Scanner

variable {tokens : List Token} {s : Scanner}

/-- What has been read where the next item or member of a container starts: nothing but the opening
mark, or the one before, which may be a bare word that goes on. -/
def AtItem (s : Scanner) (tokens : List Token) : Bool → Prop
  | true => s = ⟨tokens, .between⟩
  | false => s.Holds tokens

theorem AtItem.holds {first : Bool} (ready : s.AtItem tokens first) : s.Holds tokens := by
  cases first with
  | true =>
    obtain rfl : s = ⟨tokens, .between⟩ := ready
    exact .closed tokens
  | false => exact ready

/-- The comma in front of an item, if it is not the first one. -/
theorem AtItem.run_comma {first : Bool} (ready : s.AtItem tokens first) (rest : List Char) :
    s.run ((if first then [] else [',']) ++ rest) =
      run ⟨(if first then [] else [.comma]) ++ tokens, .between⟩ rest := by
  cases first with
  | true =>
    obtain rfl : s = ⟨tokens, .between⟩ := ready
    rfl
  | false =>
    have comma : s.step ',' = some ⟨.comma :: tokens, .between⟩ := ready.holds.step (by decide)
    simp [run_cons, comma]

/-- The mark at the end of a container. -/
theorem Holds.run_mark (holds : s.Holds tokens) {c : Char} {token : Token}
    (mark : punctuation? c = some token) (notBlank : isBlank c = false) (noQuote : c ≠ '"') :
    s.run [c] = some ⟨token :: tokens, .between⟩ := by
  have ended := holds.step (c := c) (by simp [endsWord, mark])
  simp [run, ended, stepBetween, notBlank, noQuote, mark]

mutual

/-- The compact characters of a tree are its tokens. -/
theorem run_compactChars (tokens : List Token) :
    (j : Json) → j.isSpelled = true →
      ∃ s, run ⟨tokens, .between⟩ j.compactChars = some s ∧ s.Holds (j.tokens.reverse ++ tokens)
  | .array items, spelled => by
    have opened : step ⟨tokens, .between⟩ '[' = some ⟨.openArray :: tokens, .between⟩ := rfl
    have atFirst : AtItem ⟨.openArray :: tokens, .between⟩ (.openArray :: tokens) true := rfl
    refine ⟨_, ?_, .closed _⟩
    rw [compactChars, run_cons, opened, Option.bind_some,
      run_compactItems true items spelled atFirst]
    simp [Json.tokens]
  | .object members, spelled => by
    have opened : step ⟨tokens, .between⟩ '\x7b' = some ⟨.openObject :: tokens, .between⟩ := rfl
    have atFirst : AtItem ⟨.openObject :: tokens, .between⟩ (.openObject :: tokens) true := rfl
    refine ⟨_, ?_, .closed _⟩
    rw [compactChars, run_cons, opened, Option.bind_some,
      run_compactMembers true members spelled atFirst]
    simp [Json.tokens]
  | .null, spelled => run_leafChars spelled nofun nofun
  | .bool _, spelled => run_leafChars spelled nofun nofun
  | .number _, spelled => run_leafChars spelled nofun nofun
  | .text _, spelled => run_leafChars spelled nofun nofun

theorem run_compactItems {tokens : List Token} (first : Bool) {s : Scanner} :
    (items : List Json) → areSpelled items = true → s.AtItem tokens first →
      s.run (compactItems first items) =
        some ⟨(itemTokens first items).reverse ++ tokens, .between⟩
  | [], _, ready => ready.holds.run_mark rfl rfl (by decide)
  | item :: rest, spelled, ready => by
    simp only [areSpelled, Bool.and_eq_true] at spelled
    obtain ⟨t, read, after⟩ :=
      run_compactChars ((if first then [] else [.comma]) ++ tokens) item spelled.1
    rw [compactItems, List.append_assoc, ready.run_comma, run_append, read, Option.bind_some,
      run_compactItems false rest spelled.2 after]
    cases first <;> simp [itemTokens]

theorem run_compactMembers {tokens : List Token} (first : Bool) {s : Scanner} :
    (members : List (Option String × Json)) → membersSpelled members = true →
      s.AtItem tokens first →
        s.run (compactMembers first members) =
          some ⟨(memberTokens first members).reverse ++ tokens, .between⟩
  | [], _, ready => ready.holds.run_mark rfl rfl (by decide)
  | (none, _) :: _, spelled, _ => by simp [membersSpelled] at spelled
  | (some name, value) :: rest, spelled, ready => by
    simp only [membersSpelled, Option.isSome_some, Bool.true_and, Bool.and_eq_true] at spelled
    have colon (tokens : List Token) :
        step ⟨tokens, .between⟩ ':' = some ⟨.colon :: tokens, .between⟩ := rfl
    obtain ⟨t, read, after⟩ := run_compactChars
      (.colon :: .text (some name) :: ((if first then [] else [.comma]) ++ tokens)) value spelled.1
    rw [compactMembers, List.append_assoc, List.append_assoc, ready.run_comma, run_append,
      Option.getD_some, run_stringChars, Option.bind_some, List.cons_append, run_cons, colon,
      Option.bind_some, run_append, read, Option.bind_some,
      run_compactMembers false rest spelled.2 after]
    cases first <;> simp [memberTokens]

end

end Scanner

/-- A tree whose strings spell texts is read from its compact characters. -/
theorem ofChars?_compactChars {j : Json} (spelled : j.isSpelled = true) :
    ofChars? j.compactChars = some j := by
  obtain ⟨s, read, holds⟩ := Scanner.run_compactChars [] j spelled
  exact ofChars?_of_holds read holds

end Json

end StateMachines
