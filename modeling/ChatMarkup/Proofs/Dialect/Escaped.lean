import ChatMarkup.Dialect.Grammar
import ChatMarkup.Text.Units

/-!
# Escaped texts

What a grammar could have written: in such a text each backslash makes a pair with a reserved
character, and no reserved character stands outside a pair. Whether a text is of this form can be
judged piece by piece, as long as no piece ends in the middle of a pair.

Results:
* `Paired.append`, `paired_escape`: texts with complete pairs can be put one after the other, and
  escaping makes such texts.
* `accepts_append`: a text with complete pairs and what follows it are judged apart.
* `accepts_escape`: a grammar accepts what another one wrote of a text just when both reserve the
  same of its characters.
* `units_escape`: an escaped text is longer by its reserved characters.
-/

namespace ChatMarkup

/-- Each backslash makes a pair with a character after it. -/
inductive Paired : List Char → Prop
  | nil : Paired []
  | plain {c : Char} {rest : List Char} (h : c ≠ '\\') : Paired rest → Paired (c :: rest)
  | pair {c : Char} {rest : List Char} : Paired rest → Paired ('\\' :: c :: rest)

namespace Paired

theorem append {cs ds : List Char} (h : Paired cs) (hd : Paired ds) : Paired (cs ++ ds) := by
  induction h with
  | nil => exact hd
  | plain hc _ ih => exact .plain hc ih
  | pair _ ih => exact .pair ih

/-- Without a backslash there are no pairs to complete. -/
theorem of_forall_ne {cs : List Char} (h : ∀ c ∈ cs, c ≠ '\\') : Paired cs := by
  induction cs with
  | nil => exact .nil
  | cons c cs ih =>
    exact .plain (h c List.mem_cons_self) (ih fun d hd => h d (List.mem_cons_of_mem c hd))

end Paired

namespace Grammar

variable {g : Grammar}

/-- Whether characters could be the escaped form of a text: each backslash makes a pair with a
reserved character, and no reserved character stands outside a pair. -/
def accepts (g : Grammar) : List Char → Bool
  | [] => true
  | '\\' :: c :: rest => decide (c ∈ g.reserved) && g.accepts rest
  | c :: rest => decide (c ∉ g.reserved) && g.accepts rest

theorem accepts_pair (g : Grammar) (c : Char) (rest : List Char) :
    g.accepts ('\\' :: c :: rest) = (decide (c ∈ g.reserved) && g.accepts rest) := by
  rw [accepts]

theorem accepts_plain (g : Grammar) {c : Char} (hc : c ≠ '\\') (rest : List Char) :
    g.accepts (c :: rest) = (decide (c ∉ g.reserved) && g.accepts rest) := by
  rw [accepts]
  intro d after heq
  exact absurd heq hc

theorem ne_backslash_of_not_mem {c : Char} (hc : c ∉ g.reserved) : c ≠ '\\' := by
  rintro rfl
  exact hc g.backslash_mem_reserved

/-- Characters that are not reserved may stand by themselves. -/
theorem accepts_of_not_mem {cs : List Char} (hcs : ∀ c ∈ cs, c ∉ g.reserved) :
    g.accepts cs = true := by
  induction cs with
  | nil => rfl
  | cons c cs ih =>
    have hc := hcs c List.mem_cons_self
    have hrest := ih fun d hd => hcs d (List.mem_cons_of_mem c hd)
    rw [accepts_plain g (ne_backslash_of_not_mem hc), hrest]
    simpa using hc

/-- **A text with complete pairs and what follows it are judged apart.** -/
theorem accepts_append (g : Grammar) {cs : List Char} (hcs : Paired cs) (ds : List Char) :
    g.accepts (cs ++ ds) = (g.accepts cs && g.accepts ds) := by
  induction hcs with
  | nil => rfl
  | plain hc _ ih =>
    rw [List.cons_append, accepts_plain g hc, accepts_plain g hc, ih, Bool.and_assoc]
  | pair _ ih =>
    rw [List.cons_append, List.cons_append, accepts_pair, accepts_pair, ih, Bool.and_assoc]

theorem paired_escape (g : Grammar) (s : String) : Paired (g.escape s).toList := by
  rw [toList_escape]
  induction s.toList with
  | nil => exact .nil
  | cons c cs ih =>
    rw [List.flatMap_cons, escapeChar]
    split
    · exact .pair ih
    · rename_i hc
      exact .plain (ne_backslash_of_not_mem hc) ih

/-- Whether two grammars reserve the same of the characters of a text. -/
def agrees (g h : Grammar) (s : String) : Bool :=
  s.toList.all fun c => decide (c ∈ g.reserved) == decide (c ∈ h.reserved)

/-- **A grammar accepts what another one wrote of a text** just when both reserve the same of its
characters. -/
theorem accepts_escape (g h : Grammar) (s : String) :
    h.accepts (g.escape s).toList = g.agrees h s := by
  rw [toList_escape, agrees]
  induction s.toList with
  | nil => rfl
  | cons c cs ih =>
    rw [List.flatMap_cons, List.all_cons, ← ih, escapeChar]
    by_cases hc : c ∈ g.reserved
    · rw [if_pos hc, List.cons_append, List.singleton_append, accepts_pair]
      simp [hc]
    · rw [if_neg hc, List.singleton_append, accepts_plain h (ne_backslash_of_not_mem hc)]
      simp [hc]

theorem agrees_self (g : Grammar) (s : String) : g.agrees g s = true := by
  simp [agrees]

/-! ## Length -/

/-- **An escaped text is longer by its reserved characters**, by a backslash for each. -/
theorem units_escape (g : Grammar) (s : String) :
    Text.units (g.escape s) = Text.units s + s.toList.countP (· ∈ g.reserved) := by
  have hbackslash : Text.width '\\' = 1 := by decide
  unfold Text.units
  rw [toList_escape]
  induction s.toList with
  | nil => rfl
  | cons c cs ih =>
    rw [List.flatMap_cons, Text.unitsOf_append, ih, List.countP_cons, Text.unitsOf_cons,
      escapeChar]
    by_cases hc : c ∈ g.reserved
    · simp only [hc, if_true, decide_true, Text.unitsOf_cons, Text.unitsOf_nil]
      omega
    · simp only [hc, if_false, decide_false, Bool.false_eq_true, Text.unitsOf_cons,
        Text.unitsOf_nil]
      omega

end Grammar

end ChatMarkup
