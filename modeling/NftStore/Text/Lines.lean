/-!
Lines of text. A carriage return, alone or before a line feed, ends a line as a line feed does; a
line keeps the line feed that ends it.
-/
namespace NftStore.Text

/-- The text with every line end written as a line feed. -/
def unifyLineEnds : List Char → List Char
  | [] => []
  | '\r' :: '\n' :: cs => '\n' :: unifyLineEnds cs
  | '\r' :: cs => '\n' :: unifyLineEnds cs
  | c :: cs => c :: unifyLineEnds cs

/-- The lines of a text, each with its line feed; the last may have none. -/
def splitLines : List Char → List (List Char)
  | [] => []
  | c :: cs =>
    if c = '\n' then ['\n'] :: splitLines cs
    else
      match splitLines cs with
      | [] => [[c]]
      | line :: rest => (c :: line) :: rest

/-- All lines of a text. -/
def lines (cs : List Char) : List (List Char) :=
  splitLines (unifyLineEnds cs)

/-- The lines of a text that breaks off, without the last if its end is not known. A carriage return
at the very end may be half of a line end, so it ends nothing. -/
def completeLines (cs : List Char) : List (List Char) :=
  let known := if cs.getLast? = some '\r' then cs.dropLast else cs
  (lines known).filter fun line => line.getLast? = some '\n'

end NftStore.Text
