/-
The XML text of a tree is read in one way only: two trees with the same text are the same
(`DomNode.xml_inj`). Wherever a tree ends its text tells so, whatever stands behind it: the end of a text
is shown by the next tag, and that of an element by its own. So the text may not hide what a tree is made
of, by characters of tags in the name of an element, by an empty text, or by two texts side by side.
-/
import Mathlib.Data.List.Chain
import RowMapper.Data.Dom

namespace RowMapper.DomNode

/-! ## Trees that their text shows -/

/-- A character that ends the name of an element. -/
def isMark (c : Char) : Bool := c == '<' || c == '>' || c == '/'

def isText : DomNode → Bool
  | .element _ _ => false
  | .text _ => true

/-- No two texts stand side by side. -/
def Apart (nodes : List DomNode) : Prop := nodes.IsChain fun a b => ¬(a.isText = true ∧ b.isText = true)

/-- Every element has a name that a tag can hold, no text is empty, and no two texts stand side by side. -/
inductive Tidy : DomNode → Prop
  | text {s : String} (ne_empty : s ≠ "") : Tidy (.text s)
  | element {name : String} {children : List DomNode} (ne_empty : name ≠ "")
      (unmarked : ∀ c ∈ name.toList, isMark c = false) (tidy : ∀ node ∈ children, Tidy node)
      (apart : Apart children) : Tidy (.element name children)

/-! ## Texts -/

/-- What stands for a character in the text of a tree. -/
def escapeChar (c : Char) : List Char :=
  if c = '&' then "&amp;".toList
  else if c = '<' then "&lt;".toList
  else if c = '>' then "&gt;".toList
  else [c]

theorem escape_cons (c : Char) (cs : List Char) : escape (c :: cs) = escapeChar c ++ escape cs := by
  unfold escapeChar
  split_ifs with hamp hlt hgt
  · subst hamp
    rfl
  · subst hlt
    rfl
  · subst hgt
    rfl
  · rw [escape, List.singleton_append] <;> assumption

/-- No two characters are written alike, and none is written as the beginning of another. -/
theorem escapeChar_append_inj {c d : Char} {x y : List Char}
    (h : escapeChar c ++ x = escapeChar d ++ y) : c = d ∧ x = y := by
  unfold escapeChar at h
  -- the three escapes differ in their second character, and anything else is not the ampersand of one
  split_ifs at h <;> grind

theorem escapeChar_eq_cons (c : Char) : ∃ d ds, escapeChar c = d :: ds ∧ d ≠ '<' := by
  unfold escapeChar
  split_ifs with hamp hlt hgt
  · exact ⟨_, _, rfl, by decide⟩
  · exact ⟨_, _, rfl, by decide⟩
  · exact ⟨_, _, rfl, by decide⟩
  · exact ⟨_, _, rfl, hlt⟩

/-- What a text may be followed by: nothing, or a tag. -/
def EndsText (rest : List Char) : Prop := ∀ c ∈ rest.head?, c = '<'

/-- A text does not go on as a tag does. -/
theorem not_endsText_escape {c : Char} {cs rest : List Char} : ¬EndsText (escape (c :: cs) ++ rest) := by
  obtain ⟨d, ds, hd, hne⟩ := escapeChar_eq_cons c
  rw [escape_cons, hd]
  exact fun h => hne (h d rfl)

theorem escape_append_inj : ∀ {s t r r' : List Char}, EndsText r → EndsText r' →
    escape s ++ r = escape t ++ r' → s = t ∧ r = r'
  | [], [], _, _, _, _, h => ⟨rfl, h⟩
  | [], _ :: _, _, _, hr, _, h => absurd ((congrArg EndsText h).mp hr) not_endsText_escape
  | _ :: _, [], _, _, _, hr', h => absurd ((congrArg EndsText h).mpr hr') not_endsText_escape
  | c :: s, d :: t, r, r', hr, hr', h => by
    rw [escape_cons, escape_cons, List.append_assoc, List.append_assoc] at h
    obtain ⟨rfl, hrest⟩ := escapeChar_append_inj h
    obtain ⟨rfl, rfl⟩ := escape_append_inj hr hr' hrest
    exact ⟨rfl, rfl⟩

/-! ## Tags -/

/-- What a name is followed by: nothing, or a character that no name holds. -/
def EndsName (rest : List Char) : Prop := ∀ c ∈ rest.head?, isMark c = true

theorem takeWhile_name {name rest : List Char} (hname : ∀ c ∈ name, isMark c = false)
    (hrest : EndsName rest) : (name ++ rest).takeWhile (fun c => !isMark c) = name := by
  rw [List.takeWhile_append_of_pos (by simpa using hname)]
  cases rest with
  | nil => simp
  | cons c cs => rw [List.takeWhile_cons_of_neg (by simp [hrest c rfl]), List.append_nil]

theorem name_append_inj {name name' r r' : List Char} (hname : ∀ c ∈ name, isMark c = false)
    (hname' : ∀ c ∈ name', isMark c = false) (hr : EndsName r) (hr' : EndsName r')
    (h : name ++ r = name' ++ r') : name = name' ∧ r = r' := by
  obtain rfl : name = name' := by
    rw [← takeWhile_name hname hr, h, takeWhile_name hname' hr']
  exact ⟨rfl, List.append_cancel_left h⟩

/-- The text of a text begins with no tag. -/
theorem xmlChars_text_ne {s : String} (h : s ≠ "") (rest tag : List Char) :
    xmlChars (.text s) ++ rest ≠ '<' :: tag := by
  obtain ⟨c, cs, hs⟩ := List.exists_cons_of_ne_nil (mt String.toList_eq_nil_iff.1 h)
  intro heq
  rw [xmlChars, hs] at heq
  exact not_endsText_escape ((congrArg EndsText heq).mpr (by simp [EndsText]))

/-- An element behind its name: the content and the end tag, or the end at once. -/
def afterName (name : String) : List DomNode → List Char → List Char
  | [], rest => '/' :: '>' :: rest
  | node :: nodes, rest =>
    '>' :: (xmlCharsAll (node :: nodes) ++ '<' :: '/' :: (name.toList ++ '>' :: rest))

theorem xmlChars_element (name : String) (children : List DomNode) (rest : List Char) :
    xmlChars (.element name children) ++ rest = '<' :: (name.toList ++ afterName name children rest) := by
  cases children <;> simp [xmlChars, xmlCharsAll, afterName]

theorem endsName_afterName (name : String) (children : List DomNode) (rest : List Char) :
    EndsName (afterName name children rest) := by
  cases children <;> simp [EndsName, afterName, isMark]

/-- No tree begins as the end of an element does. -/
theorem Tidy.xmlChars_ne_end {node : DomNode} (h : node.Tidy) (rest tag : List Char) :
    xmlChars node ++ rest ≠ '<' :: '/' :: tag := by
  cases h with
  | text ne_empty => exact xmlChars_text_ne ne_empty rest _
  | @element name children ne_empty unmarked _ _ =>
    obtain ⟨c, cs, hname⟩ := List.exists_cons_of_ne_nil (mt String.toList_eq_nil_iff.1 ne_empty)
    rw [xmlChars_element, hname, List.cons_append]
    rw [hname, List.forall_mem_cons] at unmarked
    intro heq
    obtain rfl : c = '/' := (List.cons.inj (List.cons.inj heq).2).1
    cases unmarked.1

/-! ## Trees -/

/-- Behind a text comes a tag: of an element, or of the one that it stands in. -/
theorem endsText_all {node : DomNode} {nodes : List DomNode} (rest : List Char)
    (h : Apart (node :: nodes)) (hnode : node.isText = true) :
    EndsText (xmlCharsAll nodes ++ '<' :: rest) := by
  cases nodes with
  | nil => simp [xmlCharsAll, EndsText]
  | cons next nodes =>
    have hnext : ¬(node.isText = true ∧ next.isText = true) := (List.isChain_cons_cons.1 h).1
    cases next with
    | text s => exact absurd ⟨hnode, rfl⟩ hnext
    | element name children =>
      rw [xmlCharsAll, List.append_assoc, xmlChars_element]
      simp [EndsText]

mutual

/-- A text is read in one way as a tree and what follows it. -/
theorem xmlChars_append_inj : ∀ {a b : DomNode} {r r' : List Char}, a.Tidy → b.Tidy →
    (a.isText = true → EndsText r) → (b.isText = true → EndsText r') →
    xmlChars a ++ r = xmlChars b ++ r' → a = b ∧ r = r'
  | .text s, .text t, r, r', _, _, hr, hr', h => by
    rw [xmlChars, xmlChars] at h
    obtain ⟨hst, rfl⟩ := escape_append_inj (hr rfl) (hr' rfl) h
    rw [String.toList_inj.1 hst]
    exact ⟨rfl, rfl⟩
  | .text s, .element name children, r, r', .text ne_empty, _, _, _, h => by
    rw [xmlChars_element] at h
    exact absurd h (xmlChars_text_ne ne_empty _ _)
  | .element name children, .text s, r, r', _, .text ne_empty, _, _, h => by
    rw [xmlChars_element] at h
    exact absurd h.symm (xmlChars_text_ne ne_empty _ _)
  | .element name children, .element name' children', r, r', .element _ hname htidy hapart,
      .element _ hname' htidy' hapart', _, _, h => by
    rw [xmlChars_element, xmlChars_element] at h
    obtain ⟨hnames, hrest⟩ := name_append_inj hname hname' (endsName_afterName _ _ _)
      (endsName_afterName _ _ _) (List.cons.inj h).2
    obtain rfl := String.toList_inj.1 hnames
    match children, children' with
    | [], [] => exact ⟨rfl, by simpa [afterName] using hrest⟩
    | [], _ :: _ | _ :: _, [] => simp [afterName] at hrest
    | node :: nodes, node' :: nodes' =>
      obtain ⟨hnodes, hend⟩ :=
        xmlCharsAll_append_inj htidy htidy' hapart hapart' (List.cons.inj hrest).2
      rw [hnodes]
      exact ⟨rfl, (List.cons.inj (List.append_cancel_left hend)).2⟩

/-- The content of an element is read in one way as its nodes and what follows its end. -/
theorem xmlCharsAll_append_inj : ∀ {as bs : List DomNode} {r r' : List Char},
    (∀ node ∈ as, node.Tidy) → (∀ node ∈ bs, node.Tidy) → Apart as → Apart bs →
    xmlCharsAll as ++ '<' :: '/' :: r = xmlCharsAll bs ++ '<' :: '/' :: r' → as = bs ∧ r = r'
  | [], [], _, _, _, _, _, _, h => ⟨rfl, by simpa [xmlCharsAll] using h⟩
  | [], b :: bs, _, _, _, hbs, _, _, h => by
    rw [xmlCharsAll, xmlCharsAll, List.append_assoc] at h
    exact absurd h.symm ((hbs b (List.mem_cons_self ..)).xmlChars_ne_end _ _)
  | a :: as, [], _, _, has, _, _, _, h => by
    rw [xmlCharsAll, xmlCharsAll, List.append_assoc] at h
    exact absurd h ((has a (List.mem_cons_self ..)).xmlChars_ne_end _ _)
  | a :: as, b :: bs, r, r', has, hbs, hchain, hchain', h => by
    rw [List.forall_mem_cons] at has hbs
    rw [xmlCharsAll, xmlCharsAll, List.append_assoc, List.append_assoc] at h
    obtain ⟨rfl, hrest⟩ := xmlChars_append_inj has.1 hbs.1 (endsText_all _ hchain)
      (endsText_all _ hchain') h
    obtain ⟨rfl, hr⟩ := xmlCharsAll_append_inj has.2 hbs.2 hchain.tail hchain'.tail hrest
    exact ⟨rfl, hr⟩

end

/-- Two trees with the same XML text are the same. -/
theorem xml_inj {a b : DomNode} (ha : a.Tidy) (hb : b.Tidy) (h : a.xml = b.xml) : a = b := by
  have hchars : xmlChars a ++ [] = xmlChars b ++ [] := by
    rw [List.append_nil, List.append_nil]
    exact String.ofList_injective h
  have hend : ∀ {node : DomNode}, node.isText = true → EndsText [] := fun _ => by simp [EndsText]
  exact (xmlChars_append_inj ha hb hend hend hchars).1

/-- A text that looks like a tag and an escape, in front of an element. -/
theorem xml_inj_likeTag :
    (element "a" [text "<b/>&lt;", element "b" []]).xml = "<a>&lt;b/&gt;&amp;lt;<b/></a>" ∧
      element "a" [text "<b/>&lt;", element "b" []] =
        ((element "a" []).appendChild (text "<b/>&lt;")).appendChild (element "b" []) := by
  have htext : Tidy (text "<b/>&lt;") := .text (by decide)
  have helement : Tidy (element "b" []) := .element (by decide) (by simp [isMark]) (by simp) (by simp [Apart])
  have htidy : Tidy (element "a" [text "<b/>&lt;", element "b" []]) :=
    .element (by decide) (by simp [isMark]) (by simp [htext, helement]) (by simp [Apart, isText])
  exact ⟨rfl, xml_inj htidy htidy (congrArg xml rfl)⟩

-- texts side by side do not show
example : (element "a" [text "b", text "c"]).xml = (element "a" [text "bc"]).xml := by rfl

end RowMapper.DomNode
