import LedPattern.Proofs.Emission
import LedPattern.Proofs.Erasure
import LedPattern.Proofs.Typing

/-!
# Names for the function of an artifact

The function of an artifact may be given a name, which can be any text. An identifier is made from
it, and this is always a word, so that it is one token of the artifact (`isWord_identifierOf`).

A word is an identifier only if it is no keyword, and keywords are left as they are
(`identifierOf_eq_keyword`). With a keyword for its name, the function has no head that the grammar
knows (`parts_keyword`). With every other text, what is printed is read as the program, under the
identifier that was made (`named_artifact_reads_back`).
-/

namespace LedPattern

open Lexer

/-! ## Identifiers and keywords -/

namespace Text

/-- A character of an identifier that is no digit may start one. -/
theorem isIdentifierStart_of_not_digit {c : Char} (hc : isIdentifierChar c = true)
    (hdigit : c.isDigit = false) : isIdentifierStart c = true := by
  simpa [isIdentifierChar, isIdentifierStart, isLetterOrDigit, hdigit] using hc

/-- An identifier that is made from a text is a word. -/
theorem isWord_identifierOf (s : String) : isWord (identifierOf s) = true := by
  have hchars := all_sanitize s
  unfold identifierOf
  dsimp only
  split
  · exact isWord_append (by decide) hchars
  · next hbody =>
    -- There is a first character, which is no digit.
    simp only [Bool.or_eq_true, not_or, Bool.not_eq_true, String.isEmpty_eq_false_iff,
      startsWithDigit] at hbody
    obtain ⟨hne, hdigit⟩ := hbody
    rw [isWord, hchars, Bool.and_true]
    cases hlist : (sanitize s).toList with
    | nil => exact absurd (String.toList_eq_nil_iff.1 hlist) hne
    | cons c cs =>
      rw [hlist] at hchars hdigit
      simp only [List.all_cons, Bool.and_eq_true] at hchars
      exact isIdentifierStart_of_not_digit hchars.1 hdigit

/-- Sanitizing changes nothing if it makes no underscore. -/
theorem sanitize_eq_self {s : String} (h : '_' ∉ (sanitize s).toList) : sanitize s = s := by
  have hkeeps : ∀ c ∈ s.toList, (if isLetterOrDigit c then c else '_') = c := by
    intro c hc
    by_cases hchar : isLetterOrDigit c = true
    · exact if_pos hchar
    · refine absurd ?_ h
      rw [sanitize, String.toList_ofList]
      exact List.mem_map.2 ⟨c, hc, if_neg hchar⟩
  rw [sanitize, List.map_congr_left hkeeps, List.map_id', String.ofList_toList]

end Text

namespace Keyword

/-- A keyword has no underscore. -/
theorem underscore_not_mem (k : Keyword) : '_' ∉ k.text.toList := by
  cases k <;> decide

/-- A keyword is found by its spelling. -/
theorem ofText?_text (k : Keyword) : ofText? k.text = some k := by
  cases k <;> decide

/-- A text that no keyword has for its spelling is no keyword. -/
theorem ofText?_eq_none {s : String} (h : ∀ k : Keyword, s ≠ k.text) : ofText? s = none := by
  rw [ofText?, List.find?_eq_none]
  exact fun k _ hk => h k (of_decide_eq_true hk).symm

end Keyword

/-- The identifier made from a text is a keyword exactly if the text is this keyword. -/
theorem Text.identifierOf_eq_keyword {s : String} {k : Keyword} :
    identifierOf s = k.text ↔ s = k.text := by
  constructor
  · -- No character can have been replaced or put in front, since that makes an underscore.
    intro h
    have hnone := k.underscore_not_mem
    rw [← h] at hnone
    unfold identifierOf at h hnone
    dsimp only at h hnone
    split at h
    · next hbody =>
      rw [if_pos hbody, String.toList_append] at hnone
      exact absurd (List.mem_append_left _ (List.mem_singleton_self '_')) hnone
    · next hbody =>
      rw [if_neg hbody] at hnone
      rw [← h, sanitize_eq_self hnone]
  · rintro rfl
    cases k <;> decide

/-! ## The artifact under another name -/

namespace Parser

/-- No artifact has a keyword for the name of its function. -/
theorem parts_keyword (slots : List Slot) (profile : Profile) (k : Keyword) (rest : List Token) :
    parts (slots.flatMap Slot.tokens ++ (headTokens profile (.keyword k) ++ rest)) = none := by
  generalize hhead : headTokens profile (.keyword k) ++ rest = head
  have hnone : slot head = none := hhead ▸ rfl
  have hslots : many slot (slots.flatMap Slot.tokens ++ head).length
      (slots.flatMap Slot.tokens ++ head) =
        (slots.map fun s => ⟨s.symbol, s.symbol, s.len⟩, head) :=
    many_items _ slot_tokens (fun _ => List.cons_ne_nil _ _) slots hnone
  -- The names end at the keyword, where the parameters would have to start.
  have hsignature : signature head = none := by
    rw [← hhead]
    cases profile <;> rfl
  rw [parts]
  simp only [hslots, hsignature, Option.bind_eq_bind, Option.bind_none]

end Parser

/-- What is printed under another name is what the program would be printed as if it had the
name. -/
theorem Program.print_named (p : Program) (provenance : Provenance) (profile : Profile)
    (name : String) : p.print provenance ⟨profile, some name⟩ =
      { p with function := Text.identifierOf name }.print provenance ⟨profile, none⟩ := rfl

/-- A word is one token. -/
theorem Lexer.tokens_lex_word {s : String} (hs : isWord s = true) :
    tokens (lex s.toList) = [wordToken s] ∧ ∀ l ∈ lex s.toList, l.complaint? = none := by
  have hreads := reads_word hs .nil rfl
  rw [List.append_nil] at hreads
  exact reads_lex hreads

section

variable {p : Program} {provenance : Provenance} {name : String}

/-- Under a name that is no keyword, an artifact is read as the program with this name. -/
theorem Program.ofText_named (hp : p.Printable) (hversion : '\n' ∉ provenance.version.toList)
    (profile : Profile) (hname : isName (Text.identifierOf name) = true) :
    Program.ofText (p.print provenance ⟨profile, some name⟩).text =
      .ok { p.erased with function := Text.identifierOf name } := by
  have hnamed : Program.Printable { p with function := Text.identifierOf name } :=
    ⟨hname, hp.slots, hp.temps, hp.body, hp.width⟩
  rw [p.print_named]
  exact Program.ofText_of_reads (Program.reads_print hnamed hversion profile)
    (Program.ofTokens_tokens hnamed profile)

/-- Under a keyword, an artifact is no artifact. -/
theorem Program.ofText_keyword (hp : p.Printable) (hversion : '\n' ∉ provenance.version.toList)
    (profile : Profile) {k : Keyword} (hname : Text.identifierOf name = k.text) :
    Program.ofText (p.print provenance ⟨profile, some name⟩).text = .error [.ungrammatical] := by
  have hreads := Program.reads_named (Program.printable_iff.1 hp).1 hversion profile
    (Text.isWord_identifierOf name)
  rw [p.print_named, Program.ofText_eq hreads, hname, wordToken, k.ofText?_text, Program.ofTokens,
    Parser.parts_keyword]
  rfl

end

/-- The program that a graph is lowered to can be printed. -/
theorem Graph.printable_of_lower {source : String} {g : Graph} {p : Program}
    (hload : (Graph.load source).value = some g) (hlower : g.lower.program = some p) :
    p.Printable := by
  obtain ⟨pl, hplan, rfl⟩ := exists_plan_of_lower hlower
  exact programOf_printable (wellFormed_of_load hload).width_lt hplan

/-- The function of a graph's artifact can be given any text for its name but a keyword. The
identifier that is made of the text is then one token, and the artifact is read as a program that
has this name and the structure of the graph's. A keyword is left as it is, and what is printed
under it does not follow the grammar. -/
theorem named_artifact_reads_back {source : String} {g : Graph} {p : Program}
    (hload : (Graph.load source).value = some g) (hlower : g.lower.program = some p)
    (profile : Profile) (name : String) :
    ((∀ k : Keyword, name ≠ k.text) →
      (Lexer.tokens (Lexer.lex (Text.identifierOf name).toList) =
          [.ident (Text.identifierOf name)] ∧
        ∀ l ∈ Lexer.lex (Text.identifierOf name).toList, l.complaint? = none) ∧
      ∃ q, Program.ofText (p.print (.ofSource source) ⟨profile, some name⟩).text = .ok q ∧
        q.function = Text.identifierOf name ∧ p.sameStructure q = true) ∧
    ∀ k : Keyword, name = k.text →
      Lexer.tokens (Lexer.lex (Text.identifierOf name).toList) = [.keyword k] ∧
      Program.ofText (p.print (.ofSource source) ⟨profile, some name⟩).text =
        .error [.ungrammatical] := by
  have hprint := Graph.printable_of_lower hload hlower
  have hversion := Provenance.newline_not_mem_version source
  have hword := Text.isWord_identifierOf name
  obtain ⟨htokens, hcomplaints⟩ := Lexer.tokens_lex_word hword
  constructor
  · intro hfree
    have hnone : Keyword.ofText? (Text.identifierOf name) = none :=
      Keyword.ofText?_eq_none fun k hk => hfree k (Text.identifierOf_eq_keyword.1 hk)
    have hname : isName (Text.identifierOf name) = true := by rw [isName, hword, hnone]; rfl
    rw [(word_of_isName hname).2] at htokens
    refine ⟨⟨htokens, hcomplaints⟩, _, Program.ofText_named hprint hversion profile hname, rfl, ?_⟩
    -- The name of the function is not part of the structure.
    exact Program.sameStructure_erased hprint
  · intro k hk
    have hname : Text.identifierOf name = k.text := Text.identifierOf_eq_keyword.2 hk
    rw [hname, wordToken, k.ofText?_text] at htokens
    exact ⟨hname ▸ htokens, Program.ofText_keyword hprint hversion profile hname⟩

/-- The chain with a fork can be printed under a name that is no identifier. -/
theorem forkedSource_named : ∃ g p, (Graph.load forkedSource).value = some g ∧
    g.lower.program = some p ∧ (∀ k : Keyword, "3d glow" ≠ k.text) ∧
    ∃ q, Program.ofText (p.print (.ofSource forkedSource) ⟨.firmware, some "3d glow"⟩).text =
        .ok q ∧
      q.function = "_3d_glow" ∧ p.sameStructure q = true := by
  obtain ⟨g, p, hload, hlower⟩ := forkedSource_compiles
  have hvalue := (Graph.load_of_ofSource hload).1
  have hprogram := (Graph.lower_of_program hlower).1
  have hfree : ∀ k : Keyword, "3d glow" ≠ k.text := by
    intro k
    cases k <;> decide
  have hname : Text.identifierOf "3d glow" = "_3d_glow" := by decide
  obtain ⟨q, hread, hfunction, hsame⟩ :=
    ((named_artifact_reads_back hvalue hprogram .firmware "3d glow").1 hfree).2
  exact ⟨g, p, hvalue, hprogram, hfree, q, hread, hfunction.trans hname, hsame⟩

/-- With the keyword `float` for the name of its function, the artifact of the chain with a fork
cannot be read again, and the name is no identifier to the artifact. -/
theorem forkedSource_keyword : ∃ g p, (Graph.load forkedSource).value = some g ∧
    g.lower.program = some p ∧ Text.identifierOf "float" = "float" ∧
    Lexer.tokens (Lexer.lex "float".toList) = [.keyword .floatKw] ∧
    ∀ profile, Program.ofText
      (p.print (.ofSource forkedSource) ⟨profile, some "float"⟩).text =
        .error [.ungrammatical] := by
  obtain ⟨g, p, hload, hlower⟩ := forkedSource_compiles
  have hvalue := (Graph.load_of_ofSource hload).1
  have hprogram := (Graph.lower_of_program hlower).1
  have hprint := Graph.printable_of_lower hvalue hprogram
  have hname : Text.identifierOf "float" = Keyword.floatKw.text := by decide
  exact ⟨g, p, hvalue, hprogram, hname, by decide, fun profile =>
    Program.ofText_keyword hprint (Provenance.newline_not_mem_version forkedSource) profile hname⟩

end LedPattern
