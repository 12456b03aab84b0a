/-
Texts: labels compared without regard to case, white space and trimming, and cutting at separator
characters, which gives all pieces (`split`), the non-empty ones (`tokens`), or the steps of a dotted
path.
-/
namespace RowMapper.Text

/-! ## Labels

Only the ASCII letters have a case here. -/

/-- The label with its ASCII letters in lower case. -/
def lowerLabel (s : String) : String := .ofList (s.toList.map Char.toLower)

/-- The label with its ASCII letters in upper case. -/
def upperLabel (s : String) : String := .ofList (s.toList.map Char.toUpper)

/-- Whether two labels differ at most in the case of ASCII letters. -/
def sameLabel (a b : String) : Bool := lowerLabel a == lowerLabel b

/-! ## White space -/

/-- The code point ranges of the Unicode property White_Space, in order, ends included. -/
def blankRanges : List (Nat × Nat) :=
  [(0x09, 0x0D), (0x20, 0x20), (0x85, 0x85), (0xA0, 0xA0), (0x1680, 0x1680), (0x2000, 0x200A),
    (0x2028, 0x2029), (0x202F, 0x202F), (0x205F, 0x205F), (0x3000, 0x3000)]

def isBlank (c : Char) : Bool :=
  blankRanges.any fun range => range.1 ≤ c.toNat && c.toNat ≤ range.2

def trimStart (cs : List Char) : List Char := cs.dropWhile isBlank

def trimEnd (cs : List Char) : List Char := (cs.reverse.dropWhile isBlank).reverse

/-- The text without the white space at its two ends. -/
def trim (s : String) : String := String.ofList (trimEnd (trimStart s.toList))

/-! ## Cutting -/

/-- The pieces between separators, empty ones included; a text without a separator is one piece. -/
def split (isSep : Char → Bool) : List Char → List (List Char)
  | [] => [[]]
  | c :: cs =>
    if isSep c then [] :: split isSep cs
    else
      match split isSep cs with
      | [] => [[c]]
      | piece :: pieces => (c :: piece) :: pieces

/-- The pieces between separators that hold at least one character. -/
def tokens (isSep : Char → Bool) (s : String) : List String :=
  ((split isSep s.toList).filter fun piece => !piece.isEmpty).map String.ofList

/-- The maximal runs of characters that are not white space. -/
def words (s : String) : List String := tokens isBlank s

/-- The text with every run of white space made one space and none at the ends. -/
def squeeze (s : String) : String := String.intercalate " " (words s)

/-- Whether the needle stands somewhere in a text. -/
def holds (needle : List Char) : List Char → Bool
  | [] => needle.isEmpty
  | c :: cs => needle.isPrefixOf (c :: cs) || holds needle cs

/-! ## Dotted paths -/

/-- The steps of a dotted path. The empty path is one empty step. -/
def steps (path : String) : List String := (split (· == '.') path.toList).map String.ofList

/-- The dotted path of a list of steps. -/
def path (steps : List String) : String := String.intercalate "." steps

@[simp] theorem path_singleton (step : String) : path [step] = step := by
  simp [path]

/-- A text is cut into at least one piece. -/
theorem split_ne_nil (isSep : Char → Bool) (cs : List Char) : split isSep cs ≠ [] := by
  cases cs with
  | nil => simp [split]
  | cons c cs =>
    unfold split
    split
    · simp
    · split <;> simp

theorem steps_ne_nil (path : String) : steps path ≠ [] := by
  simpa [steps] using split_ne_nil _ _

/-- A text without a separator is one piece. -/
theorem split_of_forall {isSep : Char → Bool} {cs : List Char} (h : ∀ c ∈ cs, isSep c = false) :
    split isSep cs = [cs] := by
  induction cs with
  | nil => rfl
  | cons c cs ih =>
    have hc := h c (List.mem_cons_self ..)
    have hcs := ih fun d hd => h d (List.mem_cons_of_mem _ hd)
    simp [split, hc, hcs]

/-- A path without a dot is one step. -/
theorem steps_of_no_dot {path : String} (h : '.' ∉ path.toList) : steps path = [path] := by
  have hsplit : split (· == '.') path.toList = [path.toList] :=
    split_of_forall fun c hc => by
      rw [beq_eq_false_iff_ne]
      rintro rfl
      exact h hc
  simp [steps, hsplit]

end RowMapper.Text
