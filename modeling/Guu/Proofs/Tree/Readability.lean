import Guu.Proofs.Grammar.Image
import Guu.Tree.Layout

/-!
# Layouts are uniquely readable

A line of a layout tells everything about its tree but the trees below it,
whatever the names in it are: what it tells last stands between a known text and
the end of the line, and what it tells first is all that is left in front.  Which
trees stand below is told by the indentation, since the lines of a tree end where
a line stands as far to the left as the first one.  So a layout can be read back,
and its text as well, as long as no name contains a line break.
-/

namespace Guu

namespace Text.Decimal

theorem digits_injective : Function.Injective digits := by
  intro left right same
  have values := congrArg magnitude same
  unfold magnitude digits at values
  rwa [Nat.ofDigitChars_ten_toDigits, Nat.ofDigitChars_ten_toDigits] at values

theorem not_mem_digits {character : Char} (other : character.isDigit = false) (value : Nat) :
    character ∉ digits value := by
  intro member
  have digit := Nat.isDigit_of_mem_toDigits (by decide) (by decide) member
  exact absurd digit (by simp [other])

theorem not_mem_render {character : Char} (other : character.isDigit = false)
    (notMinus : character ≠ '-') (value : Int) : character ∉ (render value).toList := by
  rw [render, String.toList_ofList, List.mem_append, not_or]
  refine ⟨?_, not_mem_digits other _⟩
  unfold sign
  split <;> simp [notMinus]

theorem render_injective : Function.Injective render := by
  intro left right same
  have minus (value : Nat) : '-' ∉ digits value := not_mem_digits (by decide) value
  have spelled := congrArg String.toList same
  simp only [render, String.toList_ofList, sign] at spelled
  have unsigned (value other : Nat) : '-' :: digits value ≠ digits other := fun equal =>
    minus other (equal ▸ List.mem_cons_self)
  by_cases negative : left < 0 <;> by_cases negated : right < 0 <;>
    simp only [negative, negated, if_true, if_false, List.nil_append, List.cons_append] at spelled
  · have magnitudes := digits_injective (List.cons.inj spelled).2
    omega
  · exact absurd spelled (unsigned _ _)
  · exact absurd spelled.symm (unsigned _ _)
  · have magnitudes := digits_injective spelled
    omega

end Text.Decimal

namespace Tree

/-! ## Finding where a part of a line ends -/

theorem append_cons_inj {α : Type} {stop : α} {left right rest others : List α}
    (leftInner : stop ∉ left) (rightInner : stop ∉ right)
    (same : left ++ stop :: rest = right ++ stop :: others) : left = right ∧ rest = others := by
  induction left generalizing right with
  | nil =>
      cases right with
      | nil => exact ⟨rfl, (List.cons.inj same).2⟩
      | cons first others => exact absurd ((List.cons.inj same).1 ▸ List.mem_cons_self) rightInner
  | cons first front ih =>
      cases right with
      | nil => exact absurd ((List.cons.inj same).1 ▸ List.mem_cons_self) leftInner
      | cons second back =>
          obtain ⟨equal, tails⟩ := List.cons.inj same
          obtain ⟨fronts, behind⟩ := ih (List.not_mem_of_not_mem_cons leftInner)
            (List.not_mem_of_not_mem_cons rightInner) tails
          exact ⟨equal ▸ fronts ▸ rfl, behind⟩

def numbered (text : List Char) (line : Nat) : List Char :=
  text ++ ", line = ".toList ++ Text.Decimal.digits line ++ [')']

theorem numbered_inj {text other : List Char} {line number : Nat}
    (same : numbered text line = numbered other number) : text = other ∧ line = number := by
  have reversed := congrArg List.reverse (List.append_cancel_right same)
  simp only [List.reverse_append] at reversed
  have blank (value : Nat) : ' ' ∉ (Text.Decimal.digits value).reverse := fun member =>
    Text.Decimal.not_mem_digits (by decide) value (List.mem_reverse.mp member)
  obtain ⟨digits, fronts⟩ := append_cons_inj (blank line) (blank number) reversed
  exact ⟨List.reverse_injective (List.append_cancel_left fronts),
    Text.Decimal.digits_injective (List.reverse_injective digits)⟩

/-! ## Headings -/

/-- What the line of a tree tells: the tree without the trees below it. -/
inductive Heading where
  | root
  | procedure (name : String) (line : Nat)
  | unary (operator : Operator) (line : Nat)
  | binary (operator : Operator) (line : Nat)
  | literal (value : Int64)
  | variable (name : String)

def heading : Tree → Heading
  | root _ => .root
  | procedure name line => .procedure name line
  | unary operator _ line => .unary operator line
  | binary operator _ _ line => .binary operator line
  | operand (.literal value) => .literal value
  | operand (.variable name) => .variable name

namespace Heading

def opening : Heading → String
  | root => "(Root)"
  | procedure .. => "(ProcDecl name = '"
  | unary .. => "(UnaryOp op = "
  | binary .. => "(BinOp op = "
  | literal _ => "(Param integer = "
  | «variable» _ => "(Param variable = '"

def content : Heading → List Char
  | root => []
  | procedure name line => numbered (name.toList ++ ['\'']) line
  | unary operator line => numbered operator.name.toList line
  | binary operator line => numbered operator.name.toList line
  | literal value => (Text.Decimal.render value.toInt).toList ++ [')']
  | «variable» name => name.toList ++ ['\'', ')']

def spelling (heading : Heading) : List Char :=
  heading.opening.toList ++ heading.content

theorem operator_eq_of_name {left right : Operator} (same : left.name = right.name) :
    left = right := by
  cases left <;> cases right <;> first | rfl | exact absurd same (by decide)

/-- Headings of different kinds differ within what they both start with. -/
theorem opening_eq_of_spelling {left right : Heading} (same : left.spelling = right.spelling) :
    left.opening = right.opening := by
  unfold spelling at same
  cases left <;> cases right <;> first | rfl | simp [opening] at same

theorem spelling_injective : Function.Injective spelling := by
  intro left right same
  have kinds := opening_eq_of_spelling same
  rw [spelling, spelling, kinds] at same
  have contents := List.append_cancel_left same
  cases left with
  | root =>
      cases right with
      | root => rfl
      | _ => simp [opening] at kinds
  | procedure name line =>
      cases right with
      | procedure other number =>
          obtain ⟨texts, lines⟩ := numbered_inj contents
          rw [String.toList_inj.mp (List.append_cancel_right texts), lines]
      | _ => simp [opening] at kinds
  | unary operator line =>
      cases right with
      | unary other number =>
          obtain ⟨names, lines⟩ := numbered_inj contents
          rw [operator_eq_of_name (String.toList_inj.mp names), lines]
      | _ => simp [opening] at kinds
  | binary operator line =>
      cases right with
      | binary other number =>
          obtain ⟨names, lines⟩ := numbered_inj contents
          rw [operator_eq_of_name (String.toList_inj.mp names), lines]
      | _ => simp [opening] at kinds
  | literal value =>
      cases right with
      | literal other =>
          have texts := List.append_cancel_right contents
          have values := Text.Decimal.render_injective (String.toList_inj.mp texts)
          rw [Int64.toInt_inj.mp values]
      | _ => simp [opening] at kinds
  | «variable» name =>
      cases right with
      | «variable» other => rw [String.toList_inj.mp (List.append_cancel_right contents)]
      | _ => simp [opening] at kinds

end Heading

/-- The line of a tree shows its heading. -/
theorem toList_headline (tree : Tree) : tree.headline.toList = tree.heading.spelling := by
  cases tree with
  | root statements => exact (List.append_nil _).symm
  | procedure name line =>
      have text : (procedure name line).headline = "(ProcDecl name = '" ++ name ++ "', line = " ++
          String.ofList (Nat.toDigits 10 line) ++ ")" := rfl
      simp [text, heading, Heading.spelling, Heading.opening, Heading.content, numbered,
        Text.Decimal.digits]
  | unary operator below line =>
      have text : (unary operator below line).headline = "(UnaryOp op = " ++ operator.name ++
          ", line = " ++ String.ofList (Nat.toDigits 10 line) ++ ")" := rfl
      simp [text, heading, Heading.spelling, Heading.opening, Heading.content, numbered,
        Text.Decimal.digits]
  | binary operator left right line =>
      have text : (binary operator left right line).headline = "(BinOp op = " ++ operator.name ++
          ", line = " ++ String.ofList (Nat.toDigits 10 line) ++ ")" := rfl
      simp [text, heading, Heading.spelling, Heading.opening, Heading.content, numbered,
        Text.Decimal.digits]
  | operand value =>
      cases value with
      | literal word =>
          have text : (operand (.literal word)).headline = "(Param integer = " ++
              Text.Decimal.render word.toInt ++ ")" := rfl
          simp [text, heading, Heading.spelling, Heading.opening, Heading.content]
      | «variable» name =>
          have text : (operand (.variable name)).headline = "(Param variable = '" ++ name ++ "')" :=
            rfl
          simp [text, heading, Heading.spelling, Heading.opening, Heading.content]

/-! ## Indentation -/

def indentation (line : String) : Nat :=
  (line.toList.takeWhile (· = ' ')).length

theorem toList_indented (indent : Nat) (tree : Tree) :
    (indented indent tree).toList = List.replicate indent ' ' ++ tree.heading.spelling := by
  rw [indented, String.toList_append, String.toList_ofList, toList_headline]

@[simp]
theorem indentation_indented (indent : Nat) (tree : Tree) :
    indentation (indented indent tree) = indent := by
  have stops : tree.heading.spelling.takeWhile (· = ' ') = [] := by
    cases tree.heading <;> simp [Heading.spelling, Heading.opening]
  rw [indentation, toList_indented, List.takeWhile_append_of_pos (by simp), stops,
    List.append_nil, List.length_replicate]

theorem heading_eq_of_indented {left right : Tree} {indent : Nat}
    (same : indented indent left = indented indent right) : left.heading = right.heading := by
  have spelled := congrArg String.toList same
  rw [toList_indented, toList_indented] at spelled
  exact Heading.spelling_injective (List.append_cancel_left spelled)

/-- The first of some lines, if there is one, stands further to the left. -/
def Outside (indent : Nat) (lines : List String) : Prop :=
  ∀ line ∈ lines.head?, indentation line < indent

theorem head?_layout (indent : Nat) (tree : Tree) (rest : List String) :
    (layout indent tree ++ rest).head? = some (indented indent tree) := by
  cases tree <;> simp [layout]

theorem outside_layout {outer indent : Nat} (inside : outer < indent) (tree : Tree)
    (rest : List String) : Outside indent (layout outer tree ++ rest) := by
  intro line first
  rw [head?_layout] at first
  cases first
  rwa [indentation_indented]

theorem outside_layoutAll {indent : Nat} {rest : List String} (outside : Outside indent rest)
    (trees : List Tree) : Outside (indent + 1) (layoutAll indent trees ++ rest) := by
  cases trees with
  | nil => exact fun line first => Nat.lt_succ_of_lt (outside line first)
  | cons tree trees =>
      rw [layoutAll, List.append_assoc]
      exact outside_layout (Nat.lt_succ_self indent) tree _

theorem not_outside_layoutAll {indent : Nat} {tree : Tree} {trees : List Tree}
    {rest others : List String} (same : rest = layoutAll indent (tree :: trees) ++ others) :
    ¬Outside indent rest := by
  intro outside
  rw [same, layoutAll, List.append_assoc] at outside
  have further := outside (indented indent tree) (head?_layout indent tree _)
  rw [indentation_indented] at further
  exact Nat.lt_irrefl indent further

theorem Outside.further {indent inner : Nat} {lines : List String}
    (outside : Outside indent lines) (inside : indent ≤ inner) : Outside inner lines :=
  fun line first => Nat.lt_of_lt_of_le (outside line first) inside

/-! ## Reading a layout back -/

/-- Two trees that differ in nothing but the trees below them. -/
inductive Alike : Tree → Tree → Prop where
  | root (statements others : List Tree) : Alike (.root statements) (.root others)
  | procedure (name : String) (line : Nat) : Alike (.procedure name line) (.procedure name line)
  | unary (operator : Operator) (below other : Tree) (line : Nat) :
      Alike (.unary operator below line) (.unary operator other line)
  | binary (operator : Operator) (left right otherLeft otherRight : Tree) (line : Nat) :
      Alike (.binary operator left right line) (.binary operator otherLeft otherRight line)
  | operand (value : Operand) : Alike (.operand value) (.operand value)

theorem alike_of_heading {left right : Tree} (same : left.heading = right.heading) :
    Alike left right := by
  cases left with
  | operand value =>
      cases value <;> cases right with
      | operand other =>
          cases other <;> cases same
          exact .operand _
      | _ => cases same
  | _ =>
      cases right with
      | operand other => cases other <;> cases same
      | _ => cases same <;> constructor

theorem alike_of_layout {left right : Tree} {indent : Nat} {rest others : List String}
    (same : layout indent left ++ rest = layout indent right ++ others) : Alike left right := by
  have heads := congrArg List.head? same
  rw [head?_layout, head?_layout] at heads
  exact alike_of_heading (heading_eq_of_indented (Option.some.inj heads))

mutual

/-- A layout tells its tree and where it ends, if what stands behind it is not further inside. -/
theorem layout_append_inj {indent : Nat} {rest others : List String}
    (outside : Outside (indent + 1) rest) (otherOutside : Outside (indent + 1) others) :
    ∀ left right : Tree, layout indent left ++ rest = layout indent right ++ others →
      left = right ∧ rest = others
  | .root statements, _, same => by
      cases alike_of_layout same with
      | root _ trees =>
          obtain ⟨rfl, behind⟩ := layoutAll_append_inj (outside.further (Nat.le_succ _))
            (otherOutside.further (Nat.le_succ _)) statements trees (List.cons.inj same).2
          exact ⟨rfl, behind⟩
  | .procedure name line, _, same => by
      cases alike_of_layout same with
      | procedure => exact ⟨rfl, (List.cons.inj same).2⟩
  | .unary operator below line, _, same => by
      cases alike_of_layout same with
      | unary _ _ other =>
          obtain ⟨rfl, behind⟩ := layout_append_inj (outside.further (by simp [indentStep]))
            (otherOutside.further (by simp [indentStep])) below other (List.cons.inj same).2
          exact ⟨rfl, behind⟩
  | .binary operator left right line, _, same => by
      cases alike_of_layout same with
      | binary _ _ _ otherLeft otherRight =>
          -- Behind the layout of the left tree stands that of the right one, as far inside.
          rw [layout, layout, List.cons_append, List.cons_append, List.append_assoc,
            List.append_assoc] at same
          obtain ⟨rfl, remaining⟩ := layout_append_inj
            (outside_layout (Nat.lt_succ_self _) right rest)
            (outside_layout (Nat.lt_succ_self _) otherRight others) left otherLeft
            (List.cons.inj same).2
          obtain ⟨rfl, behind⟩ := layout_append_inj (outside.further (by simp [indentStep]))
            (otherOutside.further (by simp [indentStep])) right otherRight remaining
          exact ⟨rfl, behind⟩
  | .operand value, _, same => by
      cases alike_of_layout same with
      | operand => exact ⟨rfl, (List.cons.inj same).2⟩

theorem layoutAll_append_inj {indent : Nat} {rest others : List String}
    (outside : Outside indent rest) (otherOutside : Outside indent others) :
    ∀ left right : List Tree, layoutAll indent left ++ rest = layoutAll indent right ++ others →
      left = right ∧ rest = others
  | [], [], same => ⟨rfl, same⟩
  | [], tree :: trees, same => absurd outside (not_outside_layoutAll same)
  | tree :: trees, [], same => absurd otherOutside (not_outside_layoutAll same.symm)
  | first :: left, second :: right, same => by
      rw [layoutAll, layoutAll, List.append_assoc, List.append_assoc] at same
      obtain ⟨rfl, behind⟩ := layout_append_inj (outside_layoutAll outside left)
        (outside_layoutAll otherOutside right) first second same
      obtain ⟨rfl, remaining⟩ := layoutAll_append_inj outside otherOutside left right behind
      exact ⟨rfl, remaining⟩

end

/-! ## Names on one line -/

mutual

def names : Tree → List String
  | root statements => namesAll statements
  | procedure name _ => [name]
  | unary _ below _ => names below
  | binary _ left right _ => names left ++ names right
  | operand (.variable name) => [name]
  | operand (.literal _) => []

def namesAll : List Tree → List String
  | [] => []
  | tree :: rest => names tree ++ namesAll rest

end

def Unbroken (names : List String) : Prop :=
  ∀ name ∈ names, '\n' ∉ name.toList

instance (names : List String) : Decidable (Unbroken names) :=
  inferInstanceAs (Decidable (∀ name ∈ names, '\n' ∉ name.toList))

theorem unbroken_append {front behind : List String} :
    Unbroken (front ++ behind) ↔ Unbroken front ∧ Unbroken behind := by
  simp [Unbroken, or_imp, forall_and]

theorem not_mem_indented {tree : Tree} (indent : Nat)
    (unbroken : '\n' ∉ tree.heading.content) : '\n' ∉ (indented indent tree).toList := by
  rw [toList_indented, Heading.spelling]
  have opening : '\n' ∉ tree.heading.opening.toList := by
    cases tree.heading <;> simp [Heading.opening]
  simp [unbroken, opening]

theorem not_mem_numbered {text : List Char} (unbroken : '\n' ∉ text) (line : Nat) :
    '\n' ∉ numbered text line := by
  simp [numbered, unbroken, Text.Decimal.not_mem_digits]

theorem not_mem_name (operator : Operator) : '\n' ∉ operator.name.toList := by
  cases operator <;> decide

mutual

/-- The lines of a layout contain no line breaks but those in its names. -/
theorem unbroken_layout (indent : Nat) : ∀ tree : Tree, Unbroken tree.names →
    Unbroken (layout indent tree)
  | .root statements, unbroken => by
      refine List.forall_mem_cons.mpr ⟨not_mem_indented indent List.not_mem_nil, ?_⟩
      exact unbroken_layoutAll (indent + indentStep) statements unbroken
  | .procedure name line, unbroken => by
      have inner : '\n' ∉ name.toList := unbroken name List.mem_cons_self
      refine List.forall_mem_singleton.mpr (not_mem_indented indent ?_)
      exact not_mem_numbered (by simpa using inner) line
  | .unary operator below line, unbroken => by
      refine List.forall_mem_cons.mpr ⟨not_mem_indented indent ?_, ?_⟩
      · exact not_mem_numbered (not_mem_name operator) line
      · exact unbroken_layout (indent + indentStep) below unbroken
  | .binary operator left right line, unbroken => by
      obtain ⟨first, second⟩ := unbroken_append.mp unbroken
      refine List.forall_mem_cons.mpr ⟨not_mem_indented indent ?_, unbroken_append.mpr ⟨?_, ?_⟩⟩
      · exact not_mem_numbered (not_mem_name operator) line
      · exact unbroken_layout (indent + indentStep) left first
      · exact unbroken_layout (indent + indentStep) right second
  | .operand (.literal value), _ => by
      refine List.forall_mem_singleton.mpr (not_mem_indented indent ?_)
      have inner : '\n' ∉ (Text.Decimal.render value.toInt).toList :=
        Text.Decimal.not_mem_render (by decide) (by decide) value.toInt
      simpa [heading, Heading.content] using inner
  | .operand (.variable name), unbroken => by
      have inner : '\n' ∉ name.toList := unbroken name List.mem_cons_self
      refine List.forall_mem_singleton.mpr (not_mem_indented indent ?_)
      simpa [heading, Heading.content] using inner

theorem unbroken_layoutAll (indent : Nat) : ∀ trees : List Tree, Unbroken (namesAll trees) →
    Unbroken (layoutAll indent trees)
  | [], _ => List.forall_mem_nil _
  | tree :: rest, unbroken => by
      obtain ⟨first, others⟩ := unbroken_append.mp unbroken
      exact unbroken_append.mpr ⟨unbroken_layout indent tree first,
        unbroken_layoutAll indent rest others⟩

end

/-! ## Reading the text of a layout back -/

/-- A text tells its lines if each of them ends with the only line break in it. -/
theorem flatMap_lines_inj {left right : List String} (unbroken : Unbroken left)
    (otherUnbroken : Unbroken right)
    (same : left.flatMap (fun line => line.toList ++ ['\n']) =
      right.flatMap fun line => line.toList ++ ['\n']) : left = right := by
  induction left generalizing right with
  | nil =>
      cases right with
      | nil => rfl
      | cons line others => simp at same
  | cons line rest ih =>
      cases right with
      | nil => simp at same
      | cons other others =>
          simp only [List.flatMap_cons, List.append_assoc] at same
          obtain ⟨first, later⟩ := List.forall_mem_cons.mp unbroken
          obtain ⟨second, otherLater⟩ := List.forall_mem_cons.mp otherUnbroken
          obtain ⟨lines, behind⟩ := append_cons_inj first second same
          rw [String.toList_inj.mp lines, ih later otherLater behind]

theorem toList_render (tree : Tree) :
    tree.render.toList = (tree.layout 0).flatMap fun line => line.toList ++ ['\n'] := by
  rw [render, String.toList_join, List.flatMap_map]
  simp only [String.toList_append]
  rfl

theorem render_inj {left right : Tree} (unbroken : Unbroken left.names)
    (otherUnbroken : Unbroken right.names) (same : left.render = right.render) : left = right := by
  have lines : left.layout 0 = right.layout 0 := by
    refine flatMap_lines_inj (unbroken_layout 0 left unbroken)
      (unbroken_layout 0 right otherUnbroken) ?_
    rw [← toList_render, ← toList_render, same]
  have nothing : Outside (0 + 1) [] := nofun
  have whole : left.layout 0 ++ [] = right.layout 0 ++ [] := by rw [lines]
  exact (layout_append_inj nothing nothing left right whole).1

/-! ## Trees of texts -/

theorem not_mem_of_isName {name : String} (named : IsName name) : '\n' ∉ name.toList := by
  obtain ⟨⟨letter, rest, spelled, alphabetic, alphanumeric⟩, _⟩ := named
  rw [spelled]
  intro member
  rcases List.mem_cons.mp member with rfl | later
  · exact absurd alphabetic (by decide)
  · exact absurd (alphanumeric _ later) (by decide)

theorem unbroken_operand (value : Operand) (named : value.Named) :
    Unbroken (names (.operand value)) := by
  cases value with
  | literal word => exact List.forall_mem_nil _
  | «variable» name => exact List.forall_mem_singleton.mpr (not_mem_of_isName named)

theorem IsStatement.unbroken {tree : Tree} (stated : tree.IsStatement) : Unbroken tree.names := by
  cases stated with
  | procedure named line => exact List.forall_mem_singleton.mpr (not_mem_of_isName named)
  | print named line => exact unbroken_operand _ named
  | call named line => exact unbroken_operand (.variable _) named
  | set named operand line =>
      exact unbroken_append.mpr
        ⟨unbroken_operand (.variable _) named, unbroken_operand _ operand⟩

theorem unbroken_namesAll {trees : List Tree} (stated : ∀ tree ∈ trees, tree.IsStatement) :
    Unbroken (namesAll trees) := by
  induction trees with
  | nil => exact List.forall_mem_nil _
  | cons tree rest ih =>
      obtain ⟨first, others⟩ := List.forall_mem_cons.mp stated
      exact unbroken_append.mpr ⟨first.unbroken, ih others⟩

/-- No name in the tree of a text contains a line break. -/
theorem unbroken_of_parse {source : String} {tree : Tree} (parsed : parse source = .ok tree) :
    Unbroken tree.names := by
  obtain ⟨statements, rfl, stated, _⟩ := exists_parse_iff_isStatement.mp ⟨source, parsed⟩
  exact unbroken_namesAll stated

/--
Two trees of any shape whose names contain no line break have the same text only
if they are equal.  In particular, texts that denote different trees, be it in
the number of one line, are never shown as the same tree.
-/
theorem layout_is_uniquely_readable :
    (∀ left right : Tree, Unbroken left.names → Unbroken right.names →
      (left.render = right.render ↔ left = right)) ∧
    ∀ first second left right, parse first = .ok left → parse second = .ok right →
      left ≠ right → left.render ≠ right.render := by
  refine ⟨fun left right unbroken otherUnbroken => ?_, ?_⟩
  · exact ⟨render_inj unbroken otherUnbroken, fun same => same ▸ rfl⟩
  · intro first second left right parsed otherParsed differ same
    exact differ (render_inj (unbroken_of_parse parsed) (unbroken_of_parse otherParsed) same)

/-- Names that look like the rest of a line, and texts that differ in the number of a line. -/
theorem layouts_of_odd_trees :
    let left : Tree := .root [.procedure "a', line = 1)" 2, .root [.operand (.variable "b")]]
    let right : Tree := .root [.procedure "a" 1, .root [], .operand (.variable "b")]
    left.render ≠ right.render ∧
      ∃ first second, parse first = .ok (.root [.procedure "a" 1]) ∧
        parse second = .ok (.root [.procedure "a" 2]) ∧
        render (.root [.procedure "a" 1]) ≠ render (.root [.procedure "a" 2]) := by
  intro left right
  obtain ⟨readable, denoted⟩ := layout_is_uniquely_readable
  have named : IsName "a" :=
    ⟨⟨'a', [], rfl, by decide, List.forall_mem_nil _⟩, by decide⟩
  have declared (line : Nat) (positive : 0 < line) :
      ∃ source, parse source = .ok (.root [.procedure "a" line]) :=
    exists_parse_iff_isStatement.mpr ⟨_, rfl,
      List.forall_mem_singleton.mpr (.procedure named line), by simp [line?, positive],
      List.pairwise_singleton _ _⟩
  obtain ⟨first, parsed⟩ := declared 1 (by decide)
  obtain ⟨second, otherParsed⟩ := declared 2 (by decide)
  refine ⟨fun same => ?_, first, second, parsed, otherParsed, ?_⟩
  · have equal := (readable left right (by decide) (by decide)).mp same
    simp [left, right] at equal
  · exact denoted first second _ _ parsed otherParsed (by simp)

/-- A name with a line break in it can look like the beginning of another line. -/
example :
    render (.root [.procedure "a', line = 1)\n  (ProcDecl name = 'b" 2]) =
      render (.root [.procedure "a" 1, .procedure "b" 2]) := by
  decide +kernel

end Tree

end Guu
