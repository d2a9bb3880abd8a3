import NftStore.Define

/-!
The ways to cut a text for substitution. Each piece is a character at a place where no placeholder
starts, or the placeholder of the earliest registered define that starts there. What substitution
gives is the pieces' texts one after another.
-/
namespace NftStore.Defines

/-- A piece of a text: a character that stands for itself, or the placeholder of a define. -/
inductive Piece
  | char (c : Char)
  | placeholder (d : Define)
deriving DecidableEq, Repr

/-- What a piece is in the text that was cut. -/
def Piece.source : Piece → List Char
  | char c => [c]
  | placeholder d => d.placeholder.toList

/-- What a piece becomes: a placeholder gives the value under which its name was first
registered. -/
def Piece.result (ds : Defines) : Piece → Option (List Char)
  | char c => some [c]
  | placeholder d => (ds.value? d.name).map String.toList

/-- The define is registered, and none before it starts the text, but it does. -/
def IsEarliest (ds : Defines) (d : Define) (text : List Char) : Prop :=
  ∃ before after, ds.toList = before ++ d :: after ∧ (∀ e ∈ before, ¬ e.startsAt text) ∧
    d.startsAt text

/-- A text is cut into pieces. -/
inductive Cut (ds : Defines) : List Char → List Piece → Prop
  | nil : Cut ds [] []
  | char {c : Char} {rest : List Char} {ps : List Piece} :
      (∀ d ∈ ds.toList, ¬ d.startsAt (c :: rest)) → Cut ds rest ps →
        Cut ds (c :: rest) (.char c :: ps)
  | placeholder {d : Define} {rest : List Char} {ps : List Piece} :
      ds.IsEarliest d (d.placeholder.toList ++ rest) → Cut ds rest ps →
        Cut ds (d.placeholder.toList ++ rest) (.placeholder d :: ps)

/-- The pieces of a cut are the text. -/
theorem Cut.source_eq {ds : Defines} {text : List Char} {ps : List Piece} (h : Cut ds text ps) :
    ps.flatMap Piece.source = text := by
  induction h with
  | nil => rfl
  | char _ _ ih => simp [Piece.source, ih]
  | placeholder _ _ ih => simp [Piece.source, ih]

end NftStore.Defines
