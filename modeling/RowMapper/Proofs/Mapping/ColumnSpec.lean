/-
Reading a column specifier undoes writing one. Whatever delimiters stand between and around the names of
properties and columns, a composite specifier is read as the pairs that they make, one behind the other,
and is refused when one is left over; any other text is one column, without the white space around it
(`ColumnSpec.parse_spelled`).
-/
import Mathlib.Algebra.Ring.Parity
import RowMapper.Mapping.ColumnSpec
import RowMapper.Proofs.Text.Tokens

namespace RowMapper.ColumnSpec

variable {text : String}

/-- The properties and columns of a list of pairs, one behind the other. -/
def flatten (pairs : List (String × String)) : List String := pairs.flatMap fun pair => [pair.1, pair.2]

/-- Tokens are paired up so that they are one behind the other again. -/
theorem pairUp_eq_some_iff : ∀ {ts : List String} {pairs : List (String × String)},
    pairUp ts = some pairs ↔ flatten pairs = ts
  | [], [] => by simp [pairUp, flatten]
  | [], _ :: _ => by simp [pairUp, flatten]
  | [_], [] => by simp [pairUp, flatten]
  | [_], _ :: _ => by simp [pairUp, flatten]
  | _ :: _ :: _, [] => by simp [pairUp, flatten]
  | property :: column :: rest, (p, c) :: pairs => by
    have ih : pairUp rest = some pairs ↔ flatten pairs = rest := pairUp_eq_some_iff
    unfold flatten at ih
    simp [pairUp, flatten, ih]
    grind

theorem pairUp_eq_none_iff : ∀ {ts : List String}, pairUp ts = none ↔ Odd ts.length
  | [] => by simp [pairUp]
  | [_] => by simp [pairUp]
  | _ :: _ :: rest => by
    simp only [pairUp, Option.map_eq_none_iff, List.length_cons, Nat.odd_add_one, not_not]
    exact pairUp_eq_none_iff

theorem isComposite_iff : isComposite text = true ↔ '=' ∈ text.toList ∨ ',' ∈ text.toList := by
  simp only [isComposite, List.any_eq_true, Bool.or_eq_true, beq_iff_eq]
  constructor
  · rintro ⟨c, hc, rfl | rfl⟩
    · exact .inl hc
    · exact .inr hc
  · rintro (h | h)
    · exact ⟨_, h, .inl rfl⟩
    · exact ⟨_, h, .inr rfl⟩

/-- Reading undoes writing. Tokens with delimiters between and around them, an equals sign or a comma among
these, are read as pairs of a property and a column in their order when their number is even, and are
refused when it is odd. A text without equals signs and commas is read as a column, without the white
space around it. -/
theorem parse_spelled :
    (∀ (ts : List String) (text : String), Text.Spells isDelimiter ts text.toList →
      '=' ∈ text.toList ∨ ',' ∈ text.toList →
        (Even ts.length → ∃ pairs, flatten pairs = ts ∧ parse text = .ok (.composite pairs)) ∧
        (Odd ts.length → parse text = .error (.configuration (.oddSpecifier text)))) ∧
    ∀ text : String, '=' ∉ text.toList → ',' ∉ text.toList →
      ∃ column, Text.Trims text column ∧ parse text = .ok (.single column) := by
  constructor
  · intro ts text hspells hmark
    obtain rfl := Text.tokens_eq_iff.2 hspells
    have hcomposite : isComposite text = true := isComposite_iff.2 hmark
    constructor
    · intro heven
      cases hpairs : pairUp (Text.tokens isDelimiter text) with
      | none => exact absurd heven (Nat.not_even_iff_odd.2 (pairUp_eq_none_iff.1 hpairs))
      | some pairs =>
        refine ⟨pairs, pairUp_eq_some_iff.1 hpairs, ?_⟩
        rw [parse, if_pos hcomposite, hpairs]
    · intro hodd
      rw [parse, if_pos hcomposite, pairUp_eq_none_iff.2 hodd]
  · intro text hequals hcomma
    have hplain : ¬isComposite text = true := by
      rw [isComposite_iff]
      exact not_or.2 ⟨hequals, hcomma⟩
    exact ⟨Text.trim text, Text.trims_trim text, by rw [parse, if_neg hplain]⟩

/-- Two pairs among delimiters of all kinds, three tokens, and a column among white space. -/
theorem parse_spelled_mixed :
    (∃ pairs, flatten pairs = ["id", "ORDER_ID", "code", "CODE"] ∧
      parse "\x7b id =,ORDER_ID\u3000 code=CODE\x7d" = .ok (.composite pairs)) ∧
    parse "a,b,c" = .error (.configuration (.oddSpecifier "a,b,c")) ∧
    ∃ column, Text.Trims "\t CAT ID\u00a0" column ∧ parse "\t CAT ID\u00a0" = .ok (.single column) := by
  have hfour : Text.tokens isDelimiter "\x7b id =,ORDER_ID\u3000 code=CODE\x7d" =
      ["id", "ORDER_ID", "code", "CODE"] := by decide +kernel
  have hthree : Text.tokens isDelimiter "a,b,c" = ["a", "b", "c"] := by decide +kernel
  refine ⟨?_, ?_, parse_spelled.2 _ (by decide) (by decide)⟩
  · exact (parse_spelled.1 _ _ (Text.tokens_eq_iff.1 hfour) (.inl (by decide))).1 (by decide)
  · exact (parse_spelled.1 _ _ (Text.tokens_eq_iff.1 hthree) (.inr (by decide))).2 (by decide)

end RowMapper.ColumnSpec
