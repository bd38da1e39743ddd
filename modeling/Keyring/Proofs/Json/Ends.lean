import Keyring.Proofs.Json.Reading

/-!
# Containers say where they end

The last token of an array or an object is its closing bracket, which no character behind it can
continue. So a text of a container is read as the container whatever is behind it, and what is
behind it is left. Only blanks leave nothing, so no text of a container goes on as another text.
-/

namespace Keyring.Json

/-- Values that end with a bracket. -/
def Node.isContainer : Node → Bool
  | .array _ _ | .object _ _ => true
  | _ => false

theorem Node.isDelimiter_of_getLast? {node : Node} (h : node.isContainer) :
    ∀ token ∈ node.tokens.getLast?, token.isDelimiter := by
  intro token htoken
  cases node with
  | array =>
    rw [Node.tokens, List.getLast?_concat] at htoken
    cases htoken
    rfl
  | object =>
    rw [Node.tokens, List.getLast?_concat] at htoken
    cases htoken
    rfl
  | null | bool | number | text | broken => cases h

/-- Whatever is behind a container is left. -/
theorem Node.Text.ofText_append {node : Node} {text : List Char} (h : node.Text text)
    (hcontainer : node.isContainer) (rest : List Char) :
    Node.ofText (text ++ rest) = (node, Json.tokens rest) := by
  have htokens : Json.tokens (text ++ rest) = node.tokens ++ Json.tokens rest :=
    h.tokens.run_append h.complete.separated fun token htoken =>
      .inl (Node.isDelimiter_of_getLast? hcontainer token htoken)
  rw [Node.ofText, htokens, h.complete.builds]
  rfl

/-- Only blanks have no tokens. -/
theorem tokens_eq_nil {text : List Char} : tokens text = [] ↔ Blank text := by
  constructor
  · intro h
    have hwhole : ∀ token ∈ tokens text, token.Whole := by
      rw [h]
      exact List.forall_mem_nil _
    have htext := tokensText_tokens hwhole
    rw [h] at htext
    cases htext with
    | nil hblank => exact hblank
  · intro h
    exact (TokensText.nil h).tokens_eq .nil

theorem isEmpty_tokens (text : List Char) : (tokens text).isEmpty = text.all isBlank := by
  rw [Bool.eq_iff_iff, List.isEmpty_iff, tokens_eq_nil, Blank, List.all_eq_true]

end Keyring.Json
