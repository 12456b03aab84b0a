/-
Texts and their tokens. A text is spelled by its tokens in order, with separators between any two of them
and as many as one likes before and behind; the tokens that are cut out of a text are the ones that spell
it, and no others (`Text.tokens_eq_iff`). A text with the white space at its ends cut off ends in none
(`Text.trims_trim`).
-/
import Mathlib.Data.List.TakeWhile
import RowMapper.Text.Basic

namespace RowMapper.Text

variable {isSep : Char → Bool} {c : Char} {cs rest : List Char} {token : String} {ts : List String}

/-! ## Spelling -/

/-- A text spelled by tokens: separators and no token, or a token behind separators, and behind the token
nothing, or a separator and what the other tokens spell. -/
inductive Spells (isSep : Char → Bool) : List String → List Char → Prop
  | gap {cs : List Char} (hgap : ∀ c ∈ cs, isSep c = true) : Spells isSep [] cs
  | token {lead rest : List Char} {token : String} {ts : List String}
      (hlead : ∀ c ∈ lead, isSep c = true) (ne_empty : token ≠ "")
      (whole : ∀ c ∈ token.toList, isSep c = false) (hends : ∀ c ∈ rest.head?, isSep c = true)
      (hrest : Spells isSep ts rest) : Spells isSep (token :: ts) (lead ++ token.toList ++ rest)

theorem Spells.cons_sep (hc : isSep c = true) (h : Spells isSep ts cs) : Spells isSep ts (c :: cs) := by
  cases h with
  | gap hgap => exact .gap (List.forall_mem_cons.2 ⟨hc, hgap⟩)
  | token hlead ne_empty whole hends hrest =>
    exact .token (List.forall_mem_cons.2 ⟨hc, hlead⟩) ne_empty whole hends hrest

/-- A run without separators is a token in front of a separator. -/
theorem Spells.cons_token {piece : List Char} (hne : piece ≠ []) (whole : ∀ c ∈ piece, isSep c = false)
    (hends : ∀ c ∈ cs.head?, isSep c = true) (h : Spells isSep ts cs) :
    Spells isSep (String.ofList piece :: ts) (piece ++ cs) := by
  have hlead : ∀ c ∈ ([] : List Char), isSep c = true := nofun
  have hempty : String.ofList piece ≠ "" := by simpa using hne
  simpa using Spells.token hlead hempty (by simpa using whole) hends h

/-- A character that is no separator becomes a token in front of a separator, or the first character of
the token that it stands in front of. -/
theorem Spells.cons_char (hc : isSep c = false) (h : Spells isSep ts cs) :
    ∃ ts', Spells isSep ts' (c :: cs) := by
  by_cases hends : ∀ d ∈ cs.head?, isSep d = true
  · have hwhole : ∀ d ∈ [c], isSep d = false := List.forall_mem_singleton.2 hc
    exact ⟨_, h.cons_token (List.cons_ne_nil c []) hwhole hends⟩
  cases h with
  | gap hgap => exact absurd (fun d hd => hgap d (List.mem_of_mem_head? hd)) hends
  | @token lead rest token ts hlead ne_empty whole hends' hrest =>
    cases lead with
    | cons d lead => exact absurd (by simpa using (List.forall_mem_cons.1 hlead).1) hends
    | nil =>
      have hwhole : ∀ d ∈ c :: token.toList, isSep d = false := List.forall_mem_cons.2 ⟨hc, whole⟩
      exact ⟨_, hrest.cons_token (List.cons_ne_nil c _) hwhole hends'⟩

/-! ## Cutting -/

/-- The pieces of a text that hold a character. -/
def pieces (isSep : Char → Bool) (cs : List Char) : List (List Char) :=
  (split isSep cs).filter fun piece => !piece.isEmpty

theorem tokens_eq (isSep : Char → Bool) (s : String) :
    tokens isSep s = (pieces isSep s.toList).map String.ofList := rfl

theorem pieces_cons_sep (hc : isSep c = true) (cs : List Char) :
    pieces isSep (c :: cs) = pieces isSep cs := by
  simp [pieces, split, hc]

theorem pieces_gap (h : ∀ c ∈ cs, isSep c = true) (rest : List Char) :
    pieces isSep (cs ++ rest) = pieces isSep rest := by
  induction cs with
  | nil => rfl
  | cons c cs ih =>
    rw [List.forall_mem_cons] at h
    rw [List.cons_append, pieces_cons_sep h.1, ih h.2]

/-- A run without separators goes on to the next separator. -/
theorem split_append (h : ∀ c ∈ cs, isSep c = false) (hc : isSep c = true) (rest : List Char) :
    split isSep (cs ++ c :: rest) = cs :: split isSep rest := by
  induction cs with
  | nil => simp [split, hc]
  | cons d cs ih =>
    rw [List.forall_mem_cons] at h
    simp [split, h.1, ih h.2]

theorem pieces_token (hne : cs ≠ []) (h : ∀ c ∈ cs, isSep c = false)
    (hrest : ∀ c ∈ rest.head?, isSep c = true) : pieces isSep (cs ++ rest) = cs :: pieces isSep rest := by
  cases rest with
  | nil => simp [pieces, split_of_forall h, split, hne]
  | cons c rest =>
    rw [pieces_cons_sep (hrest c rfl)]
    simp [pieces, split_append h (hrest c rfl), hne]

/-- The tokens of a text are those that spell it. -/
theorem Spells.pieces_eq (h : Spells isSep ts cs) : (pieces isSep cs).map String.ofList = ts := by
  induction h with
  | gap hgap => simpa [pieces, split] using pieces_gap hgap []
  | token hlead ne_empty whole hends _ ih =>
    rw [List.append_assoc, pieces_gap hlead,
      pieces_token (mt String.toList_eq_nil_iff.1 ne_empty) whole hends, List.map_cons, ih,
      String.ofList_toList]

/-- Every text is spelled by some tokens. -/
theorem exists_spells (isSep : Char → Bool) (cs : List Char) : ∃ ts, Spells isSep ts cs := by
  induction cs with
  | nil => exact ⟨[], .gap (by simp)⟩
  | cons c cs ih =>
    obtain ⟨ts, h⟩ := ih
    cases hc : isSep c with
    | true => exact ⟨ts, h.cons_sep hc⟩
    | false => exact h.cons_char hc

/-- What is cut out of a text is what spells it. -/
theorem tokens_eq_iff {s : String} : tokens isSep s = ts ↔ Spells isSep ts s.toList := by
  rw [tokens_eq]
  constructor
  · rintro rfl
    obtain ⟨ts, h⟩ := exists_spells isSep s.toList
    exact h.pieces_eq ▸ h
  · exact Spells.pieces_eq

/-! ## Trimming -/

/-- A text without the white space around it. -/
structure Trims (text trimmed : String) : Prop where
  around : ∃ before after, text.toList = before ++ trimmed.toList ++ after ∧
    (∀ c ∈ before, isBlank c = true) ∧ ∀ c ∈ after, isBlank c = true
  first : ∀ c ∈ trimmed.toList.head?, isBlank c = false
  last : ∀ c ∈ trimmed.toList.getLast?, isBlank c = false

theorem head?_dropWhile_blank (cs : List Char) : ∀ c ∈ (cs.dropWhile isBlank).head?, isBlank c = false := by
  have h := List.head?_dropWhile_not isBlank cs
  intro c hc
  rw [Option.mem_def.1 hc] at h
  exact h

/-- Cutting off the white space at the end leaves the first character, if any is left. -/
theorem head?_trimEnd (cs : List Char) : ∀ c ∈ (trimEnd cs).head?, c ∈ cs.head? := by
  obtain ⟨after, hafter⟩ : trimEnd cs <+: cs := by
    unfold trimEnd
    rw [← List.reverse_suffix, List.reverse_reverse]
    exact List.dropWhile_suffix _
  intro c hc
  rw [← hafter, List.head?_append, Option.mem_def.1 hc]
  rfl

theorem trims_trim (text : String) : Trims text (trim text) where
  around := by
    refine ⟨text.toList.takeWhile isBlank,
      ((trimStart text.toList).reverse.takeWhile isBlank).reverse, ?_, ?_, ?_⟩
    · rw [trim, String.toList_ofList, List.append_assoc, trimEnd, ← List.reverse_append,
        List.takeWhile_append_dropWhile, List.reverse_reverse, trimStart, List.takeWhile_append_dropWhile]
    · exact fun c hc => List.mem_takeWhile_imp hc
    · exact fun c hc => List.mem_takeWhile_imp (List.mem_reverse.1 hc)
  first := by
    intro c hc
    rw [trim, String.toList_ofList] at hc
    exact head?_dropWhile_blank _ c (head?_trimEnd _ c hc)
  last := by
    intro c hc
    rw [trim, String.toList_ofList, trimEnd, List.getLast?_reverse] at hc
    exact head?_dropWhile_blank _ c hc

end RowMapper.Text
