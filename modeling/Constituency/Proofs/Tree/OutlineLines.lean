import Mathlib.Data.List.Basic
import Mathlib.Data.Rat.Init
import Constituency.Tree.Outline

/-!
# The lines of an outline

An outline is put together from the outlines of the subtrees, whose lines are taken apart and set
further in at every level. If no label and no word runs over a line, this comes to writing a line for
each node, every node before its children, two columns further in for each node above it, and closing
a node behind the last line of what stands below it.

Two readings of this are joined here. `Tree.outlineLines` follows the tree and hands down how many of
the nodes above end with the last line of a subtree; `Tree.outlineNodes` lists the nodes with their
depths and lines, and a line is closed once for every node that ends with it.
-/
namespace Constituency

/-! ### Lines of a text -/

namespace Text

/-- Whether a text holds nothing that ends a line. -/
def IsInline (cs : List Char) : Prop :=
  ∀ c ∈ cs, c ≠ '\n' ∧ c ≠ '\r'

instance (cs : List Char) : Decidable (IsInline cs) :=
  List.decidableBAll _ cs

theorem isInline_cons {c : Char} {cs : List Char} :
    IsInline (c :: cs) ↔ (c ≠ '\n' ∧ c ≠ '\r') ∧ IsInline cs :=
  List.forall_mem_cons

theorem isInline_append {cs ds : List Char} : IsInline (cs ++ ds) ↔ IsInline cs ∧ IsInline ds :=
  List.forall_mem_append

theorem isInline_replicate (n : Nat) {c : Char} (hfeed : c ≠ '\n') (hreturn : c ≠ '\r') :
    IsInline (List.replicate n c) := by
  intro d hd
  rw [List.eq_of_mem_replicate hd]
  exact ⟨hfeed, hreturn⟩

theorem lines_append_feed {line : List Char} (h : IsInline line) (rest : List Char) :
    lines (line ++ '\n' :: rest) = line :: lines rest := by
  induction line with
  | nil => rw [List.nil_append, lines, if_pos rfl]
  | cons c line ih =>
    obtain ⟨hc, hline⟩ := isInline_cons.mp h
    rw [List.cons_append, lines, if_neg hc.1, ih hline, extendLines,
      if_neg fun hreturn => hc.2 hreturn.1]

theorem lines_of_isInline {line : List Char} (hne : line ≠ []) (h : IsInline line) :
    lines line = [line] := by
  induction line with
  | nil => exact absurd rfl hne
  | cons c line ih =>
    obtain ⟨hc, hline⟩ := isInline_cons.mp h
    rw [lines, if_neg hc.1]
    by_cases hnil : line = []
    · rw [hnil]
      rfl
    · rw [ih hnil hline, extendLines, if_neg fun hreturn => hc.2 hreturn.1]

/-- Lines that are put together are taken apart again, if none is empty. -/
theorem lines_intercalate {ls : List (List Char)} (h : ∀ line ∈ ls, line ≠ [] ∧ IsInline line) :
    lines (List.intercalate ['\n'] ls) = ls := by
  induction ls with
  | nil => rfl
  | cons line ls ih =>
    obtain ⟨⟨hne, hline⟩, hls⟩ := List.forall_mem_cons.mp h
    cases ls with
    | nil => rw [List.intercalate_singleton, lines_of_isInline hne hline]
    | cons next ls =>
      rw [List.intercalate_cons_cons, List.append_assoc, List.singleton_append,
        lines_append_feed hline, ih hls]

/-- Lines that are put together are the first one and, for each other one, a line feed and it. -/
theorem intercalate_cons (line : List Char) (ls : List (List Char)) :
    List.intercalate ['\n'] (line :: ls) = line ++ ls.flatMap ('\n' :: ·) := by
  induction ls generalizing line with
  | nil => simp
  | cons next ls ih =>
    rw [List.intercalate_cons_cons, ih, List.flatMap_cons, List.append_assoc,
      List.singleton_append, List.cons_append]

end Text

open Text

namespace Tree

variable {α : Type}

/-- Whether no label and no word of a tree holds anything that ends a line. -/
def HasInlineTexts (tree : Tree α) : Prop :=
  ∀ node ∈ tree.subtrees, IsInline node.label.toList ∧
    ∀ token ∈ node.token?, IsInline token.toList

/-- What the line of a node shows of it: its span, its label and, if it has one, its word. -/
def entry (tree : Tree α) : List Char :=
  tree.heading ++ match tree.token? with
    | some token => ' ' :: token.toList
    | none => []

/-- The line of a node at a depth, with a number of closing parentheses. -/
def outlineLine (depth closing : Nat) (node : Tree α) : List Char :=
  List.replicate (2 * depth) ' ' ++ node.entry ++ List.replicate closing ')'

/-! ### Lines along the tree -/

/-- The lines of a tree at a depth, of which the last one closes further nodes as well. -/
def outlineLines (depth closing : Nat) : Tree α → List (List Char)
  | lexical rule token position => [outlineLine depth (closing + 1) (lexical rule token position)]
  | unary rule child =>
    outlineLine depth 0 (unary rule child) :: child.outlineLines (depth + 1) (closing + 1)
  | binary rule left right =>
    outlineLine depth 0 (binary rule left right) ::
      (left.outlineLines (depth + 1) 0 ++ right.outlineLines (depth + 1) (closing + 1))

theorem outlineLine_succ (depth closing : Nat) (node : Tree α) :
    outlineLine (depth + 1) closing node = ' ' :: ' ' :: outlineLine depth closing node := by
  simp [outlineLine, Nat.mul_succ, List.replicate_succ]

/-- A tree that stands deeper has its lines further in. -/
theorem outlineLines_succ (depth closing : Nat) (tree : Tree α) :
    tree.outlineLines (depth + 1) closing =
      (tree.outlineLines depth closing).map fun line => ' ' :: ' ' :: line := by
  induction tree generalizing depth closing with
  | lexical rule token position => simp [outlineLines, outlineLine_succ]
  | unary rule child ih => simp [outlineLines, outlineLine_succ, ih]
  | binary rule left right ihl ihr => simp [outlineLines, outlineLine_succ, ihl, ihr]

/-- A parenthesis behind the lines is one more that the last line closes. -/
theorem flatMap_outlineLines_append (depth closing : Nat) (tree : Tree α) :
    (tree.outlineLines depth closing).flatMap ('\n' :: ·) ++ [')'] =
      (tree.outlineLines depth (closing + 1)).flatMap ('\n' :: ·) := by
  induction tree generalizing depth closing with
  | lexical rule token position =>
    simp [outlineLines, outlineLine, List.replicate_succ' (n := closing + 1)]
  | unary rule child ih => simp [outlineLines, ih]
  | binary rule left right _ ihr => simp [outlineLines, ihr]

/-! ### Taking lines apart -/

theorem isInline_repr (n : Nat) : IsInline n.repr.toList := by
  intro c hc
  have hdigit := Nat.isDigit_of_mem_toDigits (b := 10) (by decide) (by decide) (by simpa using hc)
  constructor <;> rintro rfl <;> cases hdigit

theorem isInline_entry {node : Tree α} (hlabel : IsInline node.label.toList)
    (htoken : ∀ token ∈ node.token?, IsInline token.toList) : IsInline node.entry := by
  have hheading : IsInline node.heading := by
    simp only [heading, Constituent.text, constituent, String.toList_append, isInline_cons,
      isInline_append]
    exact ⟨by decide, ⟨⟨⟨isInline_repr _, by decide⟩, isInline_repr _⟩, by decide⟩, hlabel⟩
  rw [entry]
  cases htok : node.token? with
  | none => simpa using hheading
  | some token =>
    refine isInline_append.mpr ⟨hheading, isInline_cons.mpr ⟨by decide, ?_⟩⟩
    exact htoken token (htok ▸ rfl)

theorem isInline_outlineLine {node : Tree α} (depth closing : Nat)
    (hlabel : IsInline node.label.toList) (htoken : ∀ token ∈ node.token?, IsInline token.toList) :
    outlineLine depth closing node ≠ [] ∧ IsInline (outlineLine depth closing node) := by
  refine ⟨by simp [outlineLine, entry, heading], ?_⟩
  exact isInline_append.mpr ⟨isInline_append.mpr ⟨isInline_replicate _ (by decide) (by decide),
    isInline_entry hlabel htoken⟩, isInline_replicate _ (by decide) (by decide)⟩

/-- What is taken apart into lines has no line that is empty or runs over. -/
theorem isInline_outlineLines {tree : Tree α} (h : tree.HasInlineTexts) (depth closing : Nat) :
    ∀ line ∈ tree.outlineLines depth closing, line ≠ [] ∧ IsInline line := by
  induction tree generalizing depth closing with
  | lexical rule token position =>
    obtain ⟨hlabel, htoken⟩ := h _ List.mem_cons_self
    exact List.forall_mem_singleton.mpr (isInline_outlineLine _ _ hlabel htoken)
  | unary rule child ih =>
    obtain ⟨⟨hlabel, htoken⟩, hchild⟩ := List.forall_mem_cons.mp h
    exact List.forall_mem_cons.mpr ⟨isInline_outlineLine _ _ hlabel htoken, ih hchild _ _⟩
  | binary rule left right ihl ihr =>
    obtain ⟨⟨hlabel, htoken⟩, hchildren⟩ := List.forall_mem_cons.mp h
    obtain ⟨hleft, hright⟩ := List.forall_mem_append.mp hchildren
    exact List.forall_mem_cons.mpr ⟨isInline_outlineLine _ _ hlabel htoken,
      List.forall_mem_append.mpr ⟨ihl hleft _ _, ihr hright _ _⟩⟩

/-- The lines of a subtree, taken apart and set further in, are its lines one level deeper. -/
theorem indented_outlineLines {tree : Tree α} (h : tree.HasInlineTexts) :
    indented (List.intercalate ['\n'] (tree.outlineLines 0 0)) =
      (tree.outlineLines 1 0).flatMap ('\n' :: ·) := by
  rw [indented, lines_intercalate (isInline_outlineLines h 0 0), outlineLines_succ,
    List.flatMap_map]

theorem outlined_eq {tree : Tree α} (h : tree.HasInlineTexts) :
    tree.outlined = List.intercalate ['\n'] (tree.outlineLines 0 0) := by
  induction tree with
  | lexical rule token position =>
    simp [outlined, outlineLines, outlineLine, entry, token?]
  | unary rule child ih =>
    obtain ⟨-, hchild⟩ := List.forall_mem_cons.mp h
    rw [outlined, ih hchild, indented_outlineLines hchild, List.append_assoc,
      flatMap_outlineLines_append, outlineLines, intercalate_cons]
    simp [outlineLine, entry, token?]
  | binary rule left right ihl ihr =>
    obtain ⟨-, hchildren⟩ := List.forall_mem_cons.mp h
    obtain ⟨hleft, hright⟩ := List.forall_mem_append.mp hchildren
    rw [outlined, ihl hleft, ihr hright, indented_outlineLines hleft,
      indented_outlineLines hright, List.append_assoc, flatMap_outlineLines_append, outlineLines,
      intercalate_cons, List.flatMap_append]
    simp [outlineLine, entry, token?]

end Tree

/-! ### Lines of a list of nodes -/

/-- A node of a tree with its depth below the top and its line in the outline. -/
structure OutlineNode (α : Type) where
  node : Tree α
  depth : Nat
  line : Nat

namespace OutlineNode

variable {α : Type}

/-- The last line of what stands below a node, which has a line for each of its nodes. -/
def lastLine (n : OutlineNode α) : Nat :=
  n.line + n.node.subtrees.length - 1

/-- How many nodes of a list end with a line. -/
def closings (nodes : List (OutlineNode α)) (line : Nat) : Nat :=
  nodes.countP fun n => n.lastLine = line

/-- The lines of a list of nodes. -/
def texts (nodes : List (OutlineNode α)) : List (List Char) :=
  nodes.map fun n => n.node.outlineLine n.depth (closings nodes n.line)

theorem closings_cons (n : OutlineNode α) (nodes : List (OutlineNode α)) (line : Nat) :
    closings (n :: nodes) line = closings nodes line + if n.lastLine = line then 1 else 0 := by
  simp [closings, List.countP_cons]

theorem closings_append (nodes nodes' : List (OutlineNode α)) (line : Nat) :
    closings (nodes ++ nodes') line = closings nodes line + closings nodes' line :=
  List.countP_append

theorem closings_eq_zero {nodes : List (OutlineNode α)} {line : Nat}
    (h : ∀ n ∈ nodes, n.lastLine ≠ line) : closings nodes line = 0 :=
  List.countP_eq_zero.mpr fun n hn => by simpa using h n hn

end OutlineNode

namespace Tree

variable {α : Type}

/-- The nodes of a tree, every node before its children, from a depth and a line on. -/
def outlineNodes (depth line : Nat) : Tree α → List (OutlineNode α)
  | lexical rule token position => [⟨lexical rule token position, depth, line⟩]
  | unary rule child =>
    ⟨unary rule child, depth, line⟩ :: child.outlineNodes (depth + 1) (line + 1)
  | binary rule left right =>
    ⟨binary rule left right, depth, line⟩ ::
      (left.outlineNodes (depth + 1) (line + 1) ++
        right.outlineNodes (depth + 1) (line + 1 + left.subtrees.length))

theorem map_node_outlineNodes (depth line : Nat) (tree : Tree α) :
    (tree.outlineNodes depth line).map (·.node) = tree.subtrees := by
  induction tree generalizing depth line with
  | lexical rule token position => rfl
  | unary rule child ih => simp [outlineNodes, subtrees, ih]
  | binary rule left right ihl ihr => simp [outlineNodes, subtrees, ihl, ihr]

/-- The lines are numbered one after the other. -/
theorem map_line_outlineNodes (depth line : Nat) (tree : Tree α) :
    (tree.outlineNodes depth line).map (·.line) = List.range' line tree.subtrees.length := by
  induction tree generalizing depth line with
  | lexical rule token position => rfl
  | unary rule child ih => simp [outlineNodes, subtrees, ih, List.range'_succ]
  | binary rule left right ihl ihr =>
    simp [outlineNodes, subtrees, ihl, ihr, List.range'_succ, List.range'_append_1]

theorem subtrees_length_pos (tree : Tree α) : 0 < tree.subtrees.length := by
  cases tree <;> exact Nat.succ_pos _

/-- What stands below a node ends within the lines of the tree. -/
theorem line_bounds {depth line : Nat} {tree : Tree α} {n : OutlineNode α}
    (h : n ∈ tree.outlineNodes depth line) :
    line ≤ n.line ∧ n.line ≤ n.lastLine ∧ n.lastLine < line + tree.subtrees.length := by
  induction tree generalizing depth line with
  | lexical rule token position =>
    obtain rfl := List.mem_singleton.mp h
    simp [OutlineNode.lastLine, subtrees]
  | unary rule child ih =>
    rcases List.mem_cons.mp h with rfl | h
    · simp [OutlineNode.lastLine, subtrees]
    · have := ih h
      simp only [subtrees, List.length_cons]
      omega
  | binary rule left right ihl ihr =>
    rcases List.mem_cons.mp h with rfl | h
    · simp [OutlineNode.lastLine, subtrees]
    · simp only [subtrees, List.length_cons, List.length_append]
      rcases List.mem_append.mp h with h | h
      · have := ihl h
        omega
      · have := ihr h
        omega

/-! ### The two readings agree -/

open OutlineNode

/-- A tree closes nothing on the lines of other nodes. -/
theorem closings_outlineNodes_eq_zero (tree : Tree α) {depth line other : Nat}
    (h : other < line ∨ line + tree.subtrees.length ≤ other) :
    closings (tree.outlineNodes depth line) other = 0 :=
  closings_eq_zero fun n hn => by
    have := line_bounds hn
    omega

/-- A line is closed by the nodes of the tree that end with it and, if it is the last one, by those
above that end with the tree. -/
theorem outlineLines_eq_map (depth closing line : Nat) (tree : Tree α) :
    tree.outlineLines depth closing = (tree.outlineNodes depth line).map fun n =>
      n.node.outlineLine n.depth (closings (tree.outlineNodes depth line) n.line +
        if n.line + 1 = line + tree.subtrees.length then closing else 0) := by
  induction tree generalizing depth closing line with
  | lexical rule token position =>
    simp [outlineLines, outlineNodes, closings, lastLine, subtrees, Nat.add_comm]
  | unary rule child ih =>
    have hpos := child.subtrees_length_pos
    have hlast : lastLine ⟨unary rule child, depth, line⟩ = line + child.subtrees.length := rfl
    have hsize : (unary rule child).subtrees.length = child.subtrees.length + 1 := rfl
    rw [outlineLines, outlineNodes, List.map_cons, ih (depth + 1) (closing + 1) (line + 1)]
    dsimp only
    congr 1
    · rw [closings_cons, closings_outlineNodes_eq_zero child (by omega), hlast, hsize,
        if_neg (by omega), if_neg (by omega)]
    · refine List.map_congr_left fun n hn => congrArg (outlineLine n.depth · n.node) ?_
      rw [closings_cons, hlast, hsize]
      split_ifs <;> omega
  | binary rule left right ihl ihr =>
    have hpos := right.subtrees_length_pos
    have hlast : lastLine ⟨binary rule left right, depth, line⟩ =
        line + left.subtrees.length + right.subtrees.length := by
      simp only [lastLine, subtrees, List.length_cons, List.length_append]
      omega
    have hsize : (binary rule left right).subtrees.length =
        left.subtrees.length + right.subtrees.length + 1 := by simp [subtrees]
    rw [outlineLines, outlineNodes, List.map_cons, List.map_append, ihl (depth + 1) 0 (line + 1),
      ihr (depth + 1) (closing + 1) (line + 1 + left.subtrees.length)]
    dsimp only
    congr 2
    · rw [closings_cons, closings_append, closings_outlineNodes_eq_zero left (by omega),
        closings_outlineNodes_eq_zero right (by omega), hlast, hsize, if_neg (by omega),
        if_neg (by omega)]
    -- On the lines of a child the other one closes nothing, and the node itself closes the last line
    -- of the right one.
    · refine List.map_congr_left fun n hn => congrArg (outlineLine n.depth · n.node) ?_
      have hbounds := line_bounds hn
      rw [closings_cons, closings_append, hlast, hsize, ite_self,
        closings_outlineNodes_eq_zero right (by omega), if_neg (by omega),
        if_neg (by omega), Nat.add_zero]
    · refine List.map_congr_left fun n hn => congrArg (outlineLine n.depth · n.node) ?_
      have hbounds := line_bounds hn
      rw [closings_cons, closings_append, hlast, hsize,
        closings_outlineNodes_eq_zero left (by omega)]
      split_ifs <;> omega

/-- An outline has a line for every node, the nodes standing as in the list of subtrees, that is, every
node before its children. A line is set in by two columns for each node above, shows the node, and
closes the nodes whose last line it is. -/
theorem outline_eq_lines {tree : Tree α} (h : tree.HasInlineTexts) :
    (tree.outlineNodes 0 0).map (·.node) = tree.subtrees ∧
      (tree.outlineNodes 0 0).map (·.line) = List.range tree.subtrees.length ∧
      tree.outline =
        String.ofList (List.intercalate ['\n'] (OutlineNode.texts (tree.outlineNodes 0 0))) := by
  refine ⟨map_node_outlineNodes 0 0 tree, ?_, ?_⟩
  · rw [map_line_outlineNodes, List.range_eq_range']
  · rw [outline, outlined_eq h, outlineLines_eq_map 0 0 0 tree]
    simp only [ite_self, Nat.add_zero]
    rfl

instance (tree : Tree α) : Decidable tree.HasInlineTexts :=
  inferInstanceAs (Decidable (∀ node ∈ tree.subtrees,
    IsInline node.label.toList ∧ ∀ token ∈ node.token?, IsInline token.toList))

/-- A sentence of three words. -/
def sentence : Tree ℚ :=
  .binary (.binary "S" "NP" "VP" 1)
    (.binary (.binary "NP" "Det" "Noun" (1 / 2)) (.lexical (.lexical "Det" "the" 1) "the" 0)
      (.lexical (.lexical "Noun" "cat" (1 / 2)) "cat" 1))
    (.unary (.unary "VP" "Verb" (1 / 4)) (.lexical (.lexical "Verb" "sat" 1) "sat" 2))

/-- The third line closes one node, and the last one three. -/
theorem outline_eq_lines_sentence :
    sentence.HasInlineTexts ∧
      (sentence.outlineNodes 0 0).map (·.line) = [0, 1, 2, 3, 4, 5] ∧
      sentence.outline = "(0..2: S\n  (0..1: NP\n    (0..0: Det the)\n    (1..1: Noun cat))\n" ++
        "  (2..2: VP\n    (2..2: Verb sat)))" := by
  have h : sentence.HasInlineTexts := by decide +kernel
  obtain ⟨-, hlines, houtline⟩ := outline_eq_lines h
  exact ⟨h, hlines, houtline.trans (by decide +kernel)⟩

end Tree

end Constituency
