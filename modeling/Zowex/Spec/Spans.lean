import Zowex.Spec.Lexer

/-! The driver of the lexer with the places of the tokens. The position of the iterator is what it
has read of the input, and it reads on in what is left. -/

namespace Zowex.lexer

/-- The characters from `start` on, before `stop`. -/
structure Span where
  start : ℕ
  stop : ℕ
deriving DecidableEq, Repr

def Span.contains (span : Span) (pos : ℕ) : Prop := span.start ≤ pos ∧ pos < span.stop

/-- `m_iter.position()`, where the rest of the input is not read yet. -/
def position (input rest : Bytes) : ℕ := input.length - rest.length

/-- The loop of `lex_all`, none if it is still running after so many iterations. -/
def lex_loop (rt : Runtime) (input : Bytes) :
    ℕ → Bytes → Option (Except LexErrorKind (List (Token × Span)))
  | 0, _ => none
  | n + 1, text =>
    let text := eat_whitespace_and_comments rt false text
    match next_token rt text with
    | .error kind => some (.error kind)
    | .ok (token, rest) =>
      let entry := (token, Span.mk (position input text) (position input rest))
      if token = .TokEof then some (.ok [entry])
      else (lex_loop rt input n rest).map fun result => result.map (entry :: ·)

/-- The loop ends so. -/
def Lexes (rt : Runtime) (input : Bytes) (result : Except LexErrorKind (List (Token × Span))) :
    Prop :=
  ∃ n, lex_loop rt input n input = some result

/-- From `#` and a blank to the end of the line. -/
structure Comment (rt : Runtime) (input : Bytes) (span : Span) : Prop where
  hash : input[span.start]? = some (rt.code '#')
  blank : input[span.start + 1]? = some (rt.code ' ')
  line : ∀ pos, span.contains pos → input[pos]? ≠ some (rt.code '\n')
  ends : span.stop = input.length ∨ input[span.stop]? = some (rt.code '\n')

/-- Where the characters of an input belong. -/
structure Tiled (rt : Runtime) (input : Bytes) (tokens : List (Token × Span)) : Prop where
  increasing : tokens.Pairwise fun a b => a.2.start < b.2.start
  disjoint : tokens.Pairwise fun a b => a.2.stop ≤ b.2.start
  covered : ∀ pos c, input[pos]? = some c →
    (∃! entry, entry ∈ tokens ∧ entry.2.contains pos) ∨
      (∀ entry ∈ tokens, ¬ entry.2.contains pos) ∧
        (is_whitespace rt c = true ∨ ∃ comment, Comment rt input comment ∧ comment.contains pos ∧
          ∀ entry ∈ tokens, entry.2.stop ≤ comment.start ∨ comment.stop ≤ entry.2.start)
  starts : ∀ entry ∈ tokens, ∀ c, input[entry.2.start]? = some c → is_whitespace rt c = false
  eof : ∃ before, tokens = before ++ [(.TokEof, ⟨input.length, input.length⟩)] ∧
    ∀ entry ∈ before, entry.1 ≠ .TokEof ∧ entry.2.start < entry.2.stop ∧
      entry.2.stop ≤ input.length

end Zowex.lexer
