import Flowgraph.Proofs.Program.Continuation
import Flowgraph.Proofs.Program.Spans
import Flowgraph.Proofs.Token.Guarded

/-!
# Programs without a failure

A program is read from its tokens, and two things are looked up in the text again: the
characters of a name, and the blanks and comments behind a token with which a proc may end.
A guarded reading gives nothing if one of them cannot be cut out of the text.

What follows an offset matters only where a token ends (`readChains_congr`), and there the
text can be cut.  So every text is read without a failure (`guardedParse_eq`), and every fault
that is found stands in the text.
-/

namespace Flowgraph

/-! ## What is looked up behind tokens -/

namespace Draft

variable {draft : Draft} {reach other : Nat → Nat}

/-- The chain of a draft is looked up behind its last token only. -/
theorem chain?_congr (same : reach draft.stop = other draft.stop) :
    draft.chain? reach = draft.chain? other := by
  rw [chain?, chain?, same]

section Next

variable (same : draft.chain? reach = draft.chain? other)

include same

/-- A flowgraph ends alike where its last chain does. -/
theorem finished?_congr : draft.finished? reach = draft.finished? other := by
  rw [finished?, finished?, same]

/-- A block closes alike where its last chain does. -/
theorem closeBlock?_congr (span : Span) :
    draft.closeBlock? reach span = draft.closeBlock? other span := by
  rw [closeBlock?, closeBlock?, finished?_congr same]

/-- A stage ends alike where its chain does. -/
theorem endStage?_congr (token : PlacedToken) :
    draft.endStage? reach token = draft.endStage? other token := by
  simp only [endStage?, same, closeBlock?_congr same]

/-- A token is taken alike where the chain before it is. -/
theorem next?_congr (token : PlacedToken) :
    draft.next? reach token = draft.next? other token := by
  simp only [next?, endStage?_congr same, closeBlock?_congr same]

/-- Tokens are read alike if what stands behind each of them is. -/
theorem readOn_congr {tokens : List PlacedToken}
    (agree : ∀ token ∈ tokens, reach token.span.stop = other token.span.stop) :
    draft.readOn reach tokens = draft.readOn other tokens ∧
      (draft.readOn reach tokens).1.chain? reach = (draft.readOn reach tokens).1.chain? other := by
  induction tokens generalizing draft with
  | nil => exact ⟨rfl, same⟩
  | cons token rest ih =>
      rw [readOn, readOn, ← next?_congr same]
      cases next : draft.next? reach token with
      | none => exact ⟨rfl, same⟩
      | some following =>
          apply ih
          · apply chain?_congr
            rw [(isAfter_of_next? next).stop]
            exact agree token (List.mem_cons_self ..)
          · exact fun later member => agree later (List.mem_cons_of_mem _ member)

end Next

end Draft

/-- Where reading goes on after a token is all that is asked of the text around the tokens. -/
theorem readChains_congr {reach other : Nat → Nat} {tokens : List PlacedToken} (stop : Nat)
    (agree : ∀ token ∈ tokens, reach token.span.stop = other token.span.stop) :
    readChains reach stop tokens = readChains other stop tokens := by
  have start : Draft.initial.chain? reach = Draft.initial.chain? other := rfl
  obtain ⟨read, last⟩ := Draft.readOn_congr start agree
  rw [readChains, readChains, ← read]
  cases final : Draft.initial.readOn reach tokens with
  | mk draft unread =>
      rw [final] at last
      have finished : draft.finished? reach = draft.finished? other := Draft.finished?_congr last
      cases unread with
      | nil => simp only [finished]
      | cons token rest => rfl

/-! ## Guarded reading -/

/-- A token whose name, if it is one, is what stands at its place in the text. -/
def guardedToken (text : List Char) : PlacedToken → Option PlacedToken
  | ⟨.identifier _, span⟩ => do
      return ⟨.identifier (String.ofList (← Text.slice? text span.start span.stop)), span⟩
  | token => some token

/-- The end of a token, and the offset after the blanks and comments behind it. -/
def guardedReach (text : List Char) (token : PlacedToken) : Option (Nat × Nat) := do
  return (token.span.stop, ← guardedAfterTrivia text token.span.stop)

/--
Read a text as a program, if every name and everything behind a token can be looked up.
Behind other offsets nothing is known: they are taken for the beginning of the text.
-/
def guardedParse (text : List Char) : Option Parse := do
  let lexing ← guardedLex text
  let tokens ← lexing.tokens.mapM (guardedToken text)
  let reached ← tokens.mapM (guardedReach text)
  let reach := fun offset => (reached.lookup offset).getD 0
  let stop := Text.byteLength text
  let strays := lexing.strays.map ParseFault.stray
  return match readChains reach stop tokens with
    | .ok chains => ⟨some ⟨chains, tokensSpan stop tokens⟩, strays⟩
    | .error fault => ⟨none, strays ++ [fault]⟩

section Text

variable {text : List Char}

/-- The text of a token is found in the source. -/
theorem guardedToken_eq {token : PlacedToken} (member : token ∈ (lex text).tokens) :
    guardedToken text token = some token := by
  obtain ⟨value, span⟩ := token
  cases value with
  | identifier name =>
      rw [guardedToken, slice?_of_identifier member]
      simp
  | _ => rfl

/-- The trivia behind a token are found in the source. -/
theorem guardedReach_eq {token : PlacedToken} (member : token ∈ (lex text).tokens) :
    guardedReach text token = some (token.span.stop, afterTrivia text token.span.stop) := by
  rw [guardedReach, guardedAfterTrivia_eq (tokens_within member).2.stops]
  rfl

/-- What is known of offsets is found where it is looked up. -/
theorem lookup_map_of_mem {α : Type} (key : α → Nat) (known : Nat → Nat) {values : List α}
    {value : α} (member : value ∈ values) :
    (values.map fun other => (key other, known (key other))).lookup (key value) =
      some (known (key value)) := by
  induction values with
  | nil => cases member
  | cons first rest ih =>
      rw [List.map_cons, List.lookup_cons]
      by_cases same : key value = key first
      · simp [same]
      · have later : value ∈ rest := (List.mem_cons.mp member).resolve_left fun isFirst =>
          same (isFirst ▸ rfl)
        rw [beq_false_of_ne same]
        exact ih later

/-- Every text is read as a program, or refused, without a failure. -/
theorem guardedParse_eq (text : List Char) : guardedParse text = some (parse text) := by
  have names : (lex text).tokens.mapM (guardedToken text) = some ((lex text).tokens.map id) :=
    mapM_eq_some_map fun token => guardedToken_eq
  have reached : (lex text).tokens.mapM (guardedReach text) =
      some ((lex text).tokens.map fun token =>
        (token.span.stop, afterTrivia text token.span.stop)) :=
    mapM_eq_some_map fun token => guardedReach_eq
  have agree : ∀ token ∈ (lex text).tokens,
      (((lex text).tokens.map fun token =>
        (token.span.stop, afterTrivia text token.span.stop)).lookup token.span.stop).getD 0 =
          afterTrivia text token.span.stop := by
    intro token member
    rw [lookup_map_of_mem (fun token => token.span.stop) (afterTrivia text) member,
      Option.getD_some]
  rw [List.map_id] at names
  rw [guardedParse, guardedLex_eq]
  simp only [Option.bind_eq_bind, Option.bind_some, names, reached]
  rw [readChains_congr _ agree]
  rfl

/-! ## Faults -/

/-- The end of a text lies within it. -/
theorem empty_within (text : List Char) :
    (Span.empty (Text.byteLength text)).Within text :=
  have ends : IsBoundary text (Text.byteLength text) := ⟨text, [], by simp, rfl⟩
  ⟨Nat.le_refl _, Nat.le_refl _, ends, ends⟩

/-- The fault that ends the reading of tokens is at one of them, or at the end of the text. -/
theorem fault_within {reach : Nat → Nat} {fault : ParseFault}
    (failed : readChains reach (Text.byteLength text) (lex text).tokens = .error fault) :
    fault.span.Within text := by
  rw [readChains] at failed
  split at failed
  · next draft token rest read =>
      cases failed
      obtain ⟨before, split, -⟩ := Draft.readOn_splits read (by rintro _ _ _ ⟨⟩)
      exact (tokens_within (by rw [split]; simp)).2
  · split at failed
    · cases failed
    · cases failed
      exact empty_within text

/-- Every fault of a text stands in the text. -/
theorem faults_within {fault : ParseFault} (member : fault ∈ (parse text).faults) :
    fault.span.Within text := by
  have strays : ∀ fault ∈ (lex text).strays.map ParseFault.stray, fault.span.Within text := by
    intro fault member
    obtain ⟨stray, isStray, rfl⟩ := List.mem_map.mp member
    exact (strays_within isStray).2
  rw [parse] at member
  cases read : readChains (afterTrivia text) (Text.byteLength text) (lex text).tokens with
  | ok chains =>
      simp only [read] at member
      exact strays fault member
  | error found =>
      simp only [read, List.mem_append, List.mem_singleton] at member
      rcases member with isStray | rfl
      · exact strays fault isStray
      · exact fault_within read

end Text

end Flowgraph
