import LedPattern.Graph.Dot
import LedPattern.Proofs.Digits

/-!
# Reading drawings

A reader for the part of the DOT language in which graphs are drawn, as the counterpart of
`Graph.dot`. It works in two passes of one kind (`run`): characters become tokens (`scan`), and
tokens become statements (`advance`). In quoted text a backslash takes the next character with it,
so that a quote behind it does not end the text. Blocks must be closed, and a statement ends with a
semicolon.

`Draws` says of a piece of text that it consists of whole statements, and which vertices and edges
these declare. It is closed under putting pieces one after another (`Draws.append`), so that a
drawing can be read line by line.
-/

namespace LedPattern.Dot

/-! ## Passes -/

/-- A pass over a list: each element changes the state and may give some output. -/
def run {σ α β : Type} (step : σ → α → Option (List β × σ)) : σ → List α → Option (List β × σ)
  | s, [] => some ([], s)
  | s, a :: rest => do
    let (out, t) ← step s a
    let (more, u) ← run step t rest
    return (out ++ more, u)

section Passes

variable {σ α β : Type} {step : σ → α → Option (List β × σ)} {s t u : σ}

/-- A pass that starts with a step. -/
theorem run_cons {a : α} {rest : List α} {out more : List β} (hstep : step s a = some (out, t))
    (hrest : run step t rest = some (more, u)) :
    run step s (a :: rest) = some (out ++ more, u) := by
  simp [run, hstep, hrest]

/-- A pass over two lists, one after the other. -/
theorem run_append {xs ys : List α} {out more : List β} (hxs : run step s xs = some (out, t))
    (hys : run step t ys = some (more, u)) :
    run step s (xs ++ ys) = some (out ++ more, u) := by
  induction xs generalizing s out with
  | nil =>
    cases hxs
    exact hys
  | cons a rest ih =>
    simp only [run, Option.bind_eq_bind, Option.bind_eq_some_iff, Option.pure_def,
      Option.some.injEq, Prod.exists, Prod.mk.injEq] at hxs
    obtain ⟨first, v, hstep, later, w, hrest, rfl, rfl⟩ := hxs
    rw [List.append_assoc]
    exact run_cons hstep (ih hrest)

/-- A pass gives no output as long as each step only adds its element to those collected. -/
theorem run_collect {f : List α → σ} {w xs : List α}
    (h : ∀ a ∈ xs, ∀ w, step (f w) a = some ([], f (w ++ [a]))) :
    run step (f w) xs = some ([], f (w ++ xs)) := by
  induction xs generalizing w with
  | nil => rw [List.append_nil]; rfl
  | cons a rest ih =>
    obtain ⟨hstep, hmore⟩ := List.forall_mem_cons.1 h
    have hrest : run step (f (w ++ [a])) rest = some ([], f (w ++ [a] ++ rest)) := ih hmore
    rw [List.append_assoc] at hrest
    exact run_cons (hstep w) hrest

end Passes

/-! ## Tokens -/

/-- A token of the DOT language. Quoted text is kept with its backslashes. -/
inductive Token where
  | word (text : String)
  | quoted (text : String)
  | sign (c : Char)
  | arrow
deriving DecidableEq, Repr

/-- Where in a token the reader is: between two, in a word, after a dash, in quoted text, or after
a backslash there. -/
inductive Mode where
  | between
  | word (chars : List Char)
  | dash
  | quoted (chars : List Char)
  | escape (chars : List Char)
deriving DecidableEq, Repr

/-- The start of a token, or a token of one character, or a blank. -/
def start (c : Char) : Option (List Token × Mode) :=
  if c = ' ' ∨ c = '\n' then some ([], .between)
  else if Text.isIdentifierChar c then some ([], .word [c])
  else if c = '"' then some ([], .quoted [])
  else if c = '-' then some ([], .dash)
  else if c ∈ ['\x7b', '\x7d', '[', ']', '=', ',', ';'] then some ([.sign c], .between)
  else none

/-- The tokens that one more character completes, and the mode after it. -/
def scan : Mode → Char → Option (List Token × Mode)
  | .between, c => start c
  | .word w, c =>
    if Text.isIdentifierChar c then some ([], .word (w ++ [c]))
    else (start c).map fun next => (.word (String.ofList w) :: next.1, next.2)
  | .dash, c => if c = '>' then some ([.arrow], .between) else none
  | .quoted w, c =>
    if c = '"' then some ([.quoted (String.ofList w)], .between)
    else if c = '\\' then some ([], .escape w)
    else some ([], .quoted (w ++ [c]))
  | .escape w, c => some ([], .quoted (w ++ ['\\', c]))

/-- A word goes on as long as its characters do. -/
theorem run_scan_word {w cs : List Char} (h : cs.all Text.isIdentifierChar = true) :
    run scan (.word w) cs = some ([], .word (w ++ cs)) :=
  run_collect fun c hc _ => if_pos (List.all_eq_true.1 h c hc)

/-- A character of a word is no blank. -/
theorem start_word {c : Char} (h : Text.isIdentifierChar c = true) :
    start c = some ([], .word [c]) := by
  unfold start
  rw [if_neg, if_pos h]
  rintro (rfl | rfl) <;> exact absurd h (by decide)

/-- A word is read up to its end. -/
theorem run_scan_name {name : String} (hne : name.toList ≠ [])
    (h : name.toList.all Text.isIdentifierChar = true) :
    run scan .between name.toList = some ([], .word name.toList) := by
  rcases hname : name.toList with _ | ⟨c, rest⟩
  · exact absurd hname hne
  · rw [hname, List.all_cons, Bool.and_eq_true] at h
    have hstep : scan .between c = some ([], .word [c]) := start_word h.1
    exact run_cons hstep (run_scan_word h.2)

/-- Quoted text goes on while there is no quote and no backslash. -/
theorem run_scan_quoted {w cs : List Char} (h : ∀ c ∈ cs, c ≠ '"' ∧ c ≠ '\\') :
    run scan (.quoted w) cs = some ([], .quoted (w ++ cs)) := by
  refine run_collect fun c hc _ => ?_
  obtain ⟨hquote, hslash⟩ := h c hc
  simp [scan, hquote, hslash]

/-- A character as it stands in quoted text. -/
def escapeChar (c : Char) : List Char :=
  if c = '\\' then ['\\', '\\'] else if c = '"' then ['\\', '"'] else [c]

/-- The characters of a text as it stands between quotes. -/
theorem toList_escape (s : String) : (escape s).toList = s.toList.flatMap escapeChar :=
  String.toList_ofList

/-- No character that is written between quotes ends the quoted text. -/
theorem run_scan_escapeChar (w : List Char) (c : Char) :
    run scan (.quoted w) (escapeChar c) = some ([], .quoted (w ++ escapeChar c)) := by
  unfold escapeChar
  split
  · rfl
  · split
    · rfl
    · rename_i hslash hquote
      exact run_scan_quoted (by simp [hslash, hquote])

/-- No text that is written between quotes ends the quoted text. -/
theorem run_scan_escape (w : List Char) (s : String) :
    run scan (.quoted w) (escape s).toList = some ([], .quoted (w ++ (escape s).toList)) := by
  rw [toList_escape]
  -- Each character leaves the reader in quoted text again, with more of it collected.
  induction s.toList generalizing w with
  | nil => rw [List.flatMap_nil, List.append_nil]; rfl
  | cons c rest ih =>
    rw [List.flatMap_cons, ← List.append_assoc]
    exact run_append (run_scan_escapeChar w c) (ih _)

/-- The lines that a label shows. A backslash with an `n` starts a new line, and any other character
after a backslash stands for itself. -/
def shownLines : List Char → List (List Char)
  | '\\' :: 'n' :: rest => [] :: shownLines rest
  | '\\' :: c :: rest => (shownLines rest).modifyHead (c :: ·)
  | c :: rest => (shownLines rest).modifyHead (c :: ·)
  | [] => [[]]

/-- A text that is written between quotes is shown as it is. -/
theorem shownLines_escape (s : String) (rest : List Char) :
    shownLines ((escape s).toList ++ rest) = (shownLines rest).modifyHead (s.toList ++ ·) := by
  rw [toList_escape]
  induction s.toList with
  | nil => exact (congrFun List.modifyHead_id _).symm
  | cons c cs ih =>
    have hchar : shownLines (escapeChar c ++ (cs.flatMap escapeChar ++ rest)) =
        (shownLines (cs.flatMap escapeChar ++ rest)).modifyHead (c :: ·) := by
      unfold escapeChar
      split
      · rename_i hslash
        subst hslash
        rfl
      · split
        · rename_i hquote
          subst hquote
          rfl
        · rename_i hslash _
          simp [shownLines, hslash]
    rw [List.flatMap_cons, List.append_assoc, hchar, ih, List.modifyHead_modifyHead]
    rfl

/-! ## Statements -/

/-- Names with values, as they stand in brackets. -/
abbrev Attributes := List (String × String)

/-- A statement of the DOT language, or the start or end of a block of them. -/
inductive Statement where
  | graph (title : String)
  | cluster (name : String)
  | close
  | setting (key value : String)
  | defaults (what : String) (attributes : Attributes)
  | node (name : String) (attributes : Attributes)
  | edge (source target : String) (attributes : Attributes)
deriving DecidableEq, Repr

/-- The text of a token that may stand for a value. -/
def Token.value? : Token → Option String
  | .word s | .quoted s => some s
  | .sign _ | .arrow => none

/-- Attributes up to the bracket that closes them. -/
def attributes? : List Token → Option Attributes
  | [.word key, .sign '=', value, .sign ']'] => do return [(key, ← value.value?)]
  | .word key :: .sign '=' :: value :: .sign ',' :: rest => do
    return (key, ← value.value?) :: (← attributes? rest)
  | _ => none

/-- The words that no vertex can have as its name. -/
def keywords : List String := ["graph", "digraph", "subgraph", "node", "edge", "strict"]

/-- The statement that the tokens before a semicolon make. -/
def statement? : List Token → Option Statement
  | [.word key, .sign '=', value] => do return .setting key (← value.value?)
  | .word name :: .sign '[' :: rest => do
    let attributes ← attributes? rest
    if name ∉ keywords then return .node name attributes
    if name ∈ ["graph", "node", "edge"] then return .defaults name attributes
    none
  | [.word source, .arrow, .word target] => some (.edge source target [])
  | .word source :: .arrow :: .word target :: .sign '[' :: rest => do
    return .edge source target (← attributes? rest)
  | _ => none

/-- What the tokens before an opening brace say. The outermost block is the graph, which may go
without a title, and a block inside it is a cluster. -/
def header? (depth : Nat) (tokens : List Token) : Option Statement :=
  match depth, tokens with
  | 0, [.word kind] => if kind = "digraph" then some (.graph "") else none
  | 0, [.word kind, .word title] => if kind = "digraph" then some (.graph title) else none
  | _ + 1, [.word kind, .word name] => if kind = "subgraph" then some (.cluster name) else none
  | _, _ => none

/-- How many blocks are open, and the tokens since the last statement. -/
structure Reading where
  depth : Nat
  pending : List Token

/-- The statements that one more token completes, and what is read of the next one. -/
def advance (r : Reading) (t : Token) : Option (List Statement × Reading) :=
  if t = .sign ';' then
    if r.depth = 0 then none
    else (statement? r.pending).map fun s => ([s], ⟨r.depth, []⟩)
  else if t = .sign '\x7b' then
    (header? r.depth r.pending).map fun s => ([s], ⟨r.depth + 1, []⟩)
  else if t = .sign '\x7d' then
    if r.depth = 0 ∨ r.pending ≠ [] then none else some ([.close], ⟨r.depth - 1, []⟩)
  else some ([], ⟨r.depth, r.pending ++ [t]⟩)

/-- A token ends a statement or a header. -/
def Token.isEnd (t : Token) : Bool := t ∈ [.sign ';', .sign '\x7b', .sign '\x7d']

/-- Tokens that end nothing are collected. -/
theorem run_advance_pending {depth : Nat} {before tokens : List Token}
    (h : ∀ t ∈ tokens, t.isEnd = false) :
    run advance ⟨depth, before⟩ tokens = some ([], ⟨depth, before ++ tokens⟩) := by
  refine run_collect (f := Reading.mk depth) fun t ht _ => ?_
  have hend := h t ht
  simp only [Token.isEnd, List.mem_cons, List.not_mem_nil, or_false, decide_eq_false_iff_not,
    not_or] at hend
  simp [advance, hend.1, hend.2.1, hend.2.2]

/-- Tokens up to a semicolon are read as a statement. -/
theorem run_advance_statement {depth : Nat} {tokens : List Token} {s : Statement}
    (h : ∀ t ∈ tokens, t.isEnd = false) (hs : statement? tokens = some s) :
    run advance ⟨depth + 1, []⟩ (tokens ++ [.sign ';']) = some ([s], ⟨depth + 1, []⟩) := by
  have hend : advance ⟨depth + 1, tokens⟩ (.sign ';') = some ([s], ⟨depth + 1, []⟩) := by
    simp [advance, hs]
  exact run_append (run_advance_pending h) (run_cons hend rfl)

/-- The statements of a drawing. -/
def read (text : String) : Option (List Statement) := do
  let (tokens, mode) ← run scan .between text.toList
  let (statements, rest) ← run advance ⟨0, []⟩ tokens
  if mode = .between ∧ rest.depth = 0 ∧ rest.pending = [] then return statements
  none

/-! ## Vertices and edges -/

/-- The name and the label of the vertex that a statement declares. -/
def Statement.vertex? : Statement → Option (String × Option String)
  | .node name attributes => some (name, attributes.lookup "label")
  | _ => none

/-- The ends of the edge that a statement draws. -/
def Statement.edge? : Statement → Option (String × String)
  | .edge source target _ => some (source, target)
  | _ => none

/-- The vertices that statements declare, in order. -/
def vertices (d : List Statement) : List (String × Option String) := d.filterMap Statement.vertex?

/-- The edges that statements draw, in order. -/
def edges (d : List Statement) : List (String × String) := d.filterMap Statement.edge?

/-- A text consists of whole statements, which take the reader from one depth to another. They
declare some vertices and draw some edges. -/
def Draws (depth : Nat) (text : String) (vs : List (String × Option String))
    (es : List (String × String)) (depth' : Nat) : Prop :=
  ∃ tokens d, run scan .between text.toList = some (tokens, .between) ∧
    run advance ⟨depth, []⟩ tokens = some (d, ⟨depth', []⟩) ∧ vertices d = vs ∧ edges d = es

namespace Draws

variable {depth depth' depth'' : Nat} {a b : String} {vs vs' : List (String × Option String)}
  {es es' : List (String × String)}

/-- The empty text draws nothing. -/
theorem empty : Draws depth "" [] [] depth := ⟨[], [], rfl, rfl, rfl, rfl⟩

/-- Two texts, one after the other, draw what both draw. -/
theorem append (ha : Draws depth a vs es depth') (hb : Draws depth' b vs' es' depth'') :
    Draws depth (a ++ b) (vs ++ vs') (es ++ es') depth'' := by
  obtain ⟨tokens, d, hscan, hread, rfl, rfl⟩ := ha
  obtain ⟨tokens', d', hscan', hread', rfl, rfl⟩ := hb
  refine ⟨tokens ++ tokens', d ++ d', ?_, run_append hread hread', List.filterMap_append,
    List.filterMap_append⟩
  rw [String.toList_append]
  exact run_append hscan hscan'

/-- Many texts, one after the other, draw what they all draw. -/
theorem join {ι : Type} {l : List ι} {text : ι → String} {edge : ι → String × String}
    (h : ∀ i ∈ l, Draws depth (text i) [] [edge i] depth) :
    Draws depth (String.join (l.map text)) [] (l.map edge) depth := by
  induction l with
  | nil => exact empty
  | cons i rest ih =>
    rw [List.map_cons, List.map_cons, String.join_cons]
    exact (h i List.mem_cons_self).append (ih fun j hj => h j (List.mem_cons_of_mem i hj))

/-- A drawing that is complete can be read. -/
theorem read_eq (h : Draws 0 a vs es 0) :
    ∃ d, read a = some d ∧ vertices d = vs ∧ edges d = es := by
  obtain ⟨tokens, d, hscan, hread, hvs, hes⟩ := h
  exact ⟨d, by simp [read, hscan, hread], hvs, hes⟩

end Draws

/-- Blanks are skipped. -/
theorem run_scan_blanks (n : Nat) :
    run scan .between (List.replicate n ' ') = some ([], .between) := by
  -- Between two tokens nothing is collected, so the state stays the same at each blank.
  refine run_collect (f := fun _ => Mode.between) (w := []) fun c hc _ => ?_
  rw [List.eq_of_mem_replicate hc]
  rfl

/-- A line is read as its text is. -/
theorem run_scan_line {indent : Nat} {s : String} {tokens : List Token}
    (h : run scan .between s.toList = some (tokens, .between)) :
    run scan .between (line indent s).toList = some (tokens, .between) := by
  simp only [line, String.toList_append, String.toList_ofList]
  have hend : run scan .between "\n".toList = some ([], .between) := rfl
  have hline := run_append (run_append (run_scan_blanks (4 * indent)) h) hend
  rwa [List.nil_append, List.append_nil] at hline

end LedPattern.Dot
