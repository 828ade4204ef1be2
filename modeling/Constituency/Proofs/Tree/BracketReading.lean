import Mathlib.Data.List.SplitBy
import Constituency.Proofs.Chart.Exactness
import Constituency.Proofs.GrammarFile.Lexemes
import Constituency.Proofs.Language.Preservation
import Constituency.Tree.Brackets

/-!
# Brackets read back

A reader of brackets splits a text into parentheses and words, and keeps the constituents that are
open on a stack. It reads the constituents of a parse back from its brackets, if no token but the
parentheses themselves contains a parenthesis; otherwise the token opens or closes a constituent
(`read_brackets_iff`).
-/
namespace Constituency

/-- What a text in brackets consists of. -/
inductive BracketPiece where
  | opening
  | closing
  | word (text : List Char)
deriving DecidableEq

namespace BracketPiece

/-- Whether a character belongs to a word. -/
def isWordChar (c : Char) : Bool :=
  !Text.isBlank c && decide (c ≠ '(' ∧ c ≠ ')')

/-- The piece that a run of characters is, if it is not blank. -/
def ofRun? : List Char → Option BracketPiece
  | ['('] => some opening
  | [')'] => some closing
  | run => if run.all isWordChar then some (word run) else none

/-- The pieces of a text: each parenthesis, and the longest runs of other characters that are not
blank. -/
def ofText (cs : List Char) : List BracketPiece :=
  (cs.splitBy fun a b => isWordChar a && isWordChar b).filterMap ofRun?

variable {c : Char} {cs rest word : List Char}

theorem ofText_nil : ofText [] = [] := rfl

/-- What comes before and after a character that belongs to no word is read by itself. -/
theorem ofText_append_cons (hc : isWordChar c = false) (cs rest : List Char) :
    ofText (cs ++ c :: rest) = ofText cs ++ ((ofRun? [c]).toList ++ ofText rest) := by
  have hcons : ofText (c :: rest) = (ofRun? [c]).toList ++ ofText rest := by
    rw [← List.singleton_append, ofText, List.splitBy_append (by simp [hc]), List.filterMap_append]
    rfl
  rw [ofText, List.splitBy_append (by simp [hc]), List.filterMap_append, ← hcons]
  rfl

theorem ofText_opening (cs rest : List Char) :
    ofText (cs ++ '(' :: rest) = ofText cs ++ opening :: ofText rest :=
  ofText_append_cons (by decide) cs rest

theorem ofText_closing (cs rest : List Char) :
    ofText (cs ++ ')' :: rest) = ofText cs ++ closing :: ofText rest :=
  ofText_append_cons (by decide) cs rest

theorem ofText_space (cs rest : List Char) :
    ofText (cs ++ ' ' :: rest) = ofText cs ++ ofText rest :=
  ofText_append_cons (by decide) cs rest

theorem opening_mem_ofText (h : '(' ∈ cs) : opening ∈ ofText cs := by
  obtain ⟨before, behind, rfl⟩ := List.append_of_mem h
  simp [ofText_opening]

theorem closing_mem_ofText (h : ')' ∈ cs) : closing ∈ ofText cs := by
  obtain ⟨before, behind, rfl⟩ := List.append_of_mem h
  simp [ofText_closing]

/-- A word is one piece. -/
theorem ofText_word (hne : word ≠ []) (hword : ∀ c ∈ word, isWordChar c = true) :
    ofText word = [.word word] := by
  have hchain : word.IsChain fun a b => (isWordChar a && isWordChar b) = true := by
    refine List.Pairwise.isChain (List.pairwise_of_forall_mem_list fun a ha b hb => ?_)
    rw [hword a ha, hword b hb]
    rfl
  have hrun : ofRun? word = some (.word word) := by
    rw [ofRun?.eq_def]
    split
    · exact absurd (hword '(' List.mem_cons_self) (by decide)
    · exact absurd (hword ')' List.mem_cons_self) (by decide)
    · exact if_pos (List.all_eq_true.mpr hword)
  rw [ofText, List.splitBy_of_isChain hne hchain, List.filterMap_cons, hrun]
  rfl

end BracketPiece

/-- A constituent that is open: its label, its first word, and what was complete before it. -/
structure OpenBracket where
  label : String
  first : Nat
  before : List Constituent

/-- A place in a text in brackets. -/
structure BracketReader where
  /-- How many words have been passed. -/
  position : Nat := 0
  /-- What is open, the innermost first. -/
  opened : List OpenBracket := []
  /-- What is complete inside the innermost one, every constituent before those inside it. -/
  complete : List Constituent := []

namespace BracketReader

/-- Passes a word. -/
def advance (reader : BracketReader) : BracketReader :=
  { reader with position := reader.position + 1 }

/-- Opens a constituent. -/
def push (reader : BracketReader) (label : String) : BracketReader :=
  { reader with
    opened := ⟨label, reader.position, reader.complete⟩ :: reader.opened
    complete := [] }

/-- Closes the innermost constituent, if there is one and it has a word. -/
def pop? (reader : BracketReader) : Option BracketReader :=
  match reader.opened with
  | [] => none
  | ⟨label, first, before⟩ :: opened =>
    if first < reader.position then
      some { reader with
        opened
        complete := before ++ ⟨label, first, reader.position - 1⟩ :: reader.complete }
    else none

/-- Reads pieces from a place on. The word after an opening parenthesis is a label. -/
def run (reader : BracketReader) : List BracketPiece → Option BracketReader
  | [] => some reader
  | .opening :: .word label :: rest => (reader.push (String.ofList label)).run rest
  | .opening :: _ => none
  | .closing :: rest => reader.pop?.bind fun next => next.run rest
  | .word _ :: rest => reader.advance.run rest

theorem run_opening (reader : BracketReader) (label : List Char) (rest : List BracketPiece) :
    reader.run (.opening :: .word label :: rest) = (reader.push (String.ofList label)).run rest :=
  rfl

theorem run_closing (reader : BracketReader) (rest : List BracketPiece) :
    reader.run (.closing :: rest) = reader.pop?.bind fun next => next.run rest :=
  rfl

/-- The constituents of a text in brackets, every one before those inside it. -/
def read (text : String) : Option (List Constituent) :=
  (run {} (BracketPiece.ofText text.toList)).bind fun reader =>
    if reader.opened.isEmpty then some reader.complete else none

end BracketReader

namespace Label

theorem toUpper_of_isNameChar {c : Char} (h : isNameChar c = true) :
    Text.upperChar c = [c.toUpper] ∧ BracketPiece.isWordChar c.toUpper = true := by
  have hlt : c.toNat < 128 := by
    have := toNat_of_isNameChar h
    omega
  have hall : ∀ n < 128, isNameChar (Char.ofNat n) = true →
      BracketPiece.isWordChar (Char.ofNat n).toUpper = true := by decide +kernel
  have hword := hall c.toNat hlt
  rw [Char.ofNat_toNat] at hword
  exact ⟨if_pos hlt, hword h⟩

/-- A plain label in upper case is one word. -/
theorem ofText_upperCase {label : String} (h : isPlain label = true) :
    BracketPiece.ofText (Text.upperCase label).toList = [.word (Text.upperCase label).toList] := by
  obtain ⟨c, rest, hlabel, -, hchars⟩ := exists_cons_of_isPlain h
  rw [Text.upperCase, String.toList_ofList, hlabel]
  refine BracketPiece.ofText_word ?_ fun d hd => ?_
  · rw [List.flatMap_cons, (toUpper_of_isNameChar (hchars c List.mem_cons_self)).1]
    exact List.cons_ne_nil _ _
  · obtain ⟨e, he, hd⟩ := List.mem_flatMap.mp hd
    obtain ⟨hupper, hword⟩ := toUpper_of_isNameChar (hchars e he)
    rw [hupper, List.mem_singleton] at hd
    exact hd ▸ hword

end Label

/-! ### The pieces of a tree -/

/-- What a constituent is written as. -/
def BracketPiece.node (label : String) (inside : List BracketPiece) : List BracketPiece :=
  .opening :: (ofText (Text.upperCase label).toList ++ (inside ++ [.closing]))

/-- The pieces of a tree in brackets. -/
def Tree.bracketPieces {α : Type} : Tree α → List BracketPiece
  | lexical rule token _ =>
    BracketPiece.node rule.head (BracketPiece.ofText (bracketToken token).toList)
  | unary rule child => BracketPiece.node rule.head child.bracketPieces
  | binary rule left right =>
    BracketPiece.node rule.head (left.bracketPieces ++ right.bracketPieces)

namespace BracketPiece

/-- A constituent is taken apart if what stands inside it is, whatever its label is. -/
theorem ofText_node {inside : List Char} {pieces : List BracketPiece}
    (h : ∀ rest, ofText (inside ++ ')' :: rest) = pieces ++ closing :: ofText rest)
    (label : String) (rest : List Char) :
    ofText ('(' :: ((Text.upperCase label).toList ++ ' ' :: (inside ++ ')' :: rest))) =
      node label pieces ++ ofText rest := by
  rw [← List.nil_append ('(' :: _), ofText_opening, ofText_space, h]
  simp [node, ofText_nil]

/-- The brackets of a tree are taken apart node by node, whatever its tokens are. -/
theorem ofText_brackets {α : Type} (tree : Tree α) (rest : List Char) :
    ofText (tree.brackets.toList ++ rest) = tree.bracketPieces ++ ofText rest := by
  induction tree generalizing rest with
  | lexical rule token position =>
    have h := ofText_node (ofText_closing (bracketToken token).toList) rule.head rest
    simpa [Tree.brackets, Tree.bracketPieces] using h
  | unary rule child ih =>
    have hinside : ∀ rest, ofText (child.brackets.toList ++ ')' :: rest) =
        child.bracketPieces ++ closing :: ofText rest :=
      fun rest => (ih _).trans (congrArg _ (ofText_closing [] rest))
    simpa [Tree.brackets, Tree.bracketPieces] using ofText_node hinside rule.head rest
  | binary rule left right ihl ihr =>
    have hinside : ∀ rest,
        ofText ((left.brackets.toList ++ ' ' :: right.brackets.toList) ++ ')' :: rest) =
          (left.bracketPieces ++ right.bracketPieces) ++ closing :: ofText rest := by
      intro rest
      have hright := (ihr (')' :: rest)).trans (congrArg _ (ofText_closing [] rest))
      rw [List.append_assoc, ihl, List.append_assoc]
      exact congrArg _ ((ofText_space [] _).trans hright)
    simpa [Tree.brackets, Tree.bracketPieces] using ofText_node hinside rule.head rest

end BracketPiece

/-! ### Reading a tree -/

/-- A constituent with its label in upper case. -/
def Constituent.upperCased (c : Constituent) : Constituent :=
  { c with label := Text.upperCase c.label }

namespace BracketReader

/-- Reading a constituent completes it in front of what is complete inside it. -/
theorem run_node {label : String} (hlabel : Label.isPlain label = true)
    {reader : BracketReader} {position : Nat} (hposition : reader.position < position)
    {pieces : List BracketPiece} {inside : List Constituent}
    (h : ∀ rest, run (reader.push (Text.upperCase label)) (pieces ++ rest) =
      run { reader.push (Text.upperCase label) with position, complete := inside } rest)
    (rest : List BracketPiece) :
    reader.run (BracketPiece.node label pieces ++ rest) =
      run { reader with
        position
        complete := reader.complete ++
          ⟨Text.upperCase label, reader.position, position - 1⟩ :: inside } rest := by
  have hpop : pop? { reader.push (Text.upperCase label) with position, complete := inside } =
      some { reader with
        position
        complete := reader.complete ++
          ⟨Text.upperCase label, reader.position, position - 1⟩ :: inside } := if_pos hposition
  rw [BracketPiece.node, Label.ofText_upperCase hlabel]
  simp only [List.cons_append, List.nil_append, List.append_assoc, run_opening,
    String.ofList_toList]
  rw [h, run_closing, hpop]
  rfl

end BracketReader

namespace Tree

variable {α : Type} {rules : Ruleset α} {tokens : List String}

/-- Whether all labels of a tree are plain. -/
def HasPlainLabels (tree : Tree α) : Prop :=
  ∀ node ∈ tree.subtrees, Label.isPlain node.label = true

theorem hasPlainLabels_lexical {rule : Rule α} {token : String} {position : Nat} :
    (lexical rule token position).HasPlainLabels ↔ Label.isPlain rule.head = true :=
  List.forall_mem_singleton

theorem hasPlainLabels_unary {rule : Rule α} {child : Tree α} :
    (unary rule child).HasPlainLabels ↔
      Label.isPlain rule.head = true ∧ child.HasPlainLabels :=
  List.forall_mem_cons

theorem hasPlainLabels_binary {rule : Rule α} {left right : Tree α} :
    (binary rule left right).HasPlainLabels ↔
      Label.isPlain rule.head = true ∧ left.HasPlainLabels ∧ right.HasPlainLabels := by
  rw [HasPlainLabels, subtrees, List.forall_mem_cons, List.forall_mem_append]
  rfl

theorem Licensed.hasPlainLabels {tree : Tree α} (h : tree.Licensed rules tokens)
    (hlabels : ∀ label ∈ rules.nonterminals, Label.isPlain label = true) :
    tree.HasPlainLabels := by
  intro node hn
  have hrule : node.rule ∈ rules := by
    have hfits := h node hn
    cases node with
    | lexical rule token position => exact hfits.1
    | unary rule child => exact hfits.1
    | binary rule left right => exact hfits.1
  exact hlabels _ (Ruleset.mem_nonterminals.mpr
    (Ruleset.Has.head_mem_symbols ⟨node.rule, hrule, rfl, rfl⟩))

/-- Reading a tree that is licensed passes its words and completes its constituents, if its labels
are plain and each of its tokens is written as one word. -/
theorem run_bracketPieces {tree : Tree α} (htree : tree.Licensed rules tokens)
    (hlabels : tree.HasPlainLabels)
    (htokens : ∀ token ∈ tree.leaves,
      ∃ word, BracketPiece.ofText (bracketToken token).toList = [.word word])
    (reader : BracketReader) (hposition : reader.position = tree.first)
    (rest : List BracketPiece) :
    reader.run (tree.bracketPieces ++ rest) =
      BracketReader.run { reader with
        position := tree.last + 1
        complete := reader.complete ++ tree.constituents.map Constituent.upperCased } rest := by
  induction tree generalizing reader rest with
  | lexical rule token position =>
    obtain ⟨word, hword⟩ := htokens token List.mem_cons_self
    obtain rfl : reader.position = position := hposition
    rw [bracketPieces, hword]
    exact BracketReader.run_node (hasPlainLabels_lexical.mp hlabels) (Nat.lt_succ_self _)
      (fun _ => rfl) rest
  | unary rule child ih =>
    obtain ⟨-, hchild⟩ := licensed_unary.mp htree
    obtain ⟨hlabel, hlabels⟩ := hasPlainLabels_unary.mp hlabels
    have hspan : reader.position < child.last + 1 :=
      hposition ▸ Nat.lt_succ_of_le htree.first_le_last
    have hinside := ih hchild hlabels htokens (reader.push (Text.upperCase rule.head)) hposition
    rw [bracketPieces, BracketReader.run_node hlabel hspan hinside, hposition]
    rfl
  | binary rule left right ihl ihr =>
    obtain ⟨⟨-, -, hadjacent⟩, hleft, hright⟩ := licensed_binary.mp htree
    obtain ⟨hlabel, hlabelsl, hlabelsr⟩ := hasPlainLabels_binary.mp hlabels
    obtain ⟨htokensl, htokensr⟩ := List.forall_mem_append.mp htokens
    have hspan : reader.position < right.last + 1 :=
      hposition ▸ Nat.lt_succ_of_le htree.first_le_last
    have hinside : ∀ rest, (reader.push (Text.upperCase rule.head)).run
        (left.bracketPieces ++ right.bracketPieces ++ rest) =
          BracketReader.run { reader.push (Text.upperCase rule.head) with
            position := right.last + 1
            complete := left.constituents.map Constituent.upperCased ++
              right.constituents.map Constituent.upperCased } rest := by
      intro rest
      rw [List.append_assoc, ihl hleft hlabelsl htokensl (reader.push _) hposition,
        ihr hright hlabelsr htokensr _ hadjacent]
      rfl
    rw [bracketPieces, BracketReader.run_node hlabel hspan hinside, hposition]
    simp only [constituents, subtrees, List.map_cons, List.map_append]
    rfl

end Tree

/-! ### How many parentheses can be read -/

theorem BracketPiece.count_node {label : String} (hlabel : Label.isPlain label = true)
    {piece : BracketPiece} (hpiece : piece = opening ∨ piece = closing)
    (inside : List BracketPiece) :
    (node label inside).count piece = inside.count piece + 1 := by
  rw [node, Label.ofText_upperCase hlabel]
  rcases hpiece with rfl | rfl <;> simp

namespace BracketReader

/-- How many constituents are complete, inside and outside of those that are open. -/
def size (reader : BracketReader) : Nat :=
  reader.complete.length + (reader.opened.map (·.before.length)).sum

theorem size_of_pop? {reader next : BracketReader} (h : reader.pop? = some next) :
    next.size = reader.size + 1 ∧ next.opened.length + 1 = reader.opened.length := by
  obtain ⟨position, opened, complete⟩ := reader
  match opened, h with
  | ⟨label, first, before⟩ :: opened, h =>
    simp only [pop?] at h
    split at h
    · cases h
      refine ⟨?_, rfl⟩
      simp only [size, List.map_cons, List.sum_cons, List.length_append, List.length_cons]
      omega
    · cases h

/-- Every closing parenthesis completes a constituent that an opening one has begun. -/
theorem size_of_run {reader next : BracketReader} {pieces : List BracketPiece}
    (h : reader.run pieces = some next) :
    next.size = reader.size + pieces.count .closing ∧
      next.opened.length + pieces.count .closing =
        reader.opened.length + pieces.count .opening := by
  fun_induction run reader pieces with
  | case1 reader =>
    cases h
    exact ⟨rfl, rfl⟩
  | case2 reader label rest ih =>
    obtain ⟨hsize, hopened⟩ := ih h
    simp [size, push] at hsize hopened ⊢
    omega
  | case3 reader rest hrest => cases h
  | case4 reader rest ih =>
    obtain ⟨popped, hpop, h⟩ := Option.bind_eq_some_iff.mp h
    obtain ⟨hsize, hopened⟩ := ih popped h
    obtain ⟨hsize', hopened'⟩ := size_of_pop? hpop
    simp
    omega
  | case5 reader word rest ih =>
    obtain ⟨hsize, hopened⟩ := ih h
    simp [size, advance] at hsize hopened ⊢
    omega

/-- A text that can be read has a parenthesis of each kind for every constituent. -/
theorem count_of_read {text : String} {constituents : List Constituent}
    (h : read text = some constituents) :
    (BracketPiece.ofText text.toList).count .opening = constituents.length ∧
      (BracketPiece.ofText text.toList).count .closing = constituents.length := by
  obtain ⟨reader, hrun, hread⟩ := Option.bind_eq_some_iff.mp h
  obtain ⟨hsize, hopened⟩ := size_of_run hrun
  split at hread
  · rename_i hempty
    cases hread
    rw [List.isEmpty_iff] at hempty
    simp [size, hempty] at hsize hopened
    omega
  · cases hread

end BracketReader

namespace Tree

variable {α : Type} {rules : Ruleset α} {tokens : List String}

/-- The brackets of a tree have one parenthesis of each kind for every node, and those that stand in
its tokens. -/
theorem count_bracketPieces {tree : Tree α} (hlabels : tree.HasPlainLabels) {piece : BracketPiece}
    (hpiece : piece = .opening ∨ piece = .closing) :
    tree.bracketPieces.count piece = tree.subtrees.length +
      (tree.leaves.map fun token =>
        (BracketPiece.ofText (bracketToken token).toList).count piece).sum := by
  induction tree with
  | lexical rule token position =>
    rw [bracketPieces, BracketPiece.count_node (hasPlainLabels_lexical.mp hlabels) hpiece]
    simp [subtrees, leaves, Nat.add_comm]
  | unary rule child ih =>
    obtain ⟨hlabel, hlabels⟩ := hasPlainLabels_unary.mp hlabels
    rw [bracketPieces, BracketPiece.count_node hlabel hpiece, ih hlabels, subtrees, leaves,
      List.length_cons]
    omega
  | binary rule left right ihl ihr =>
    obtain ⟨hlabel, hlabelsl, hlabelsr⟩ := hasPlainLabels_binary.mp hlabels
    rw [bracketPieces, BracketPiece.count_node hlabel hpiece, List.count_append, ihl hlabelsl,
      ihr hlabelsr, subtrees, leaves, List.length_cons, List.length_append, List.map_append,
      List.sum_append]
    omega

/-- A token without parentheses and blanks is one word, and so is a parenthesis as it is written. -/
theorem ofText_bracketToken {token : String}
    (htoken : token ≠ "" ∧ ∀ c ∈ token.toList, Text.isBlank c = false)
    (h : token = "(" ∨ token = ")" ∨ '(' ∉ token.toList ∧ ')' ∉ token.toList) :
    ∃ word, BracketPiece.ofText (bracketToken token).toList = [.word word] := by
  rcases h with rfl | rfl | ⟨hopening, hclosing⟩
  · exact ⟨_, BracketPiece.ofText_word (by decide) (List.all_eq_true.mp (by decide))⟩
  · exact ⟨_, BracketPiece.ofText_word (by decide) (List.all_eq_true.mp (by decide))⟩
  · have hself : bracketToken token = token := by
      rw [bracketToken, if_neg, if_neg]
      · rintro rfl
        exact hclosing List.mem_cons_self
      · rintro rfl
        exact hopening List.mem_cons_self
    refine ⟨_, BracketPiece.ofText_word ?_ fun c hc => ?_⟩
    · rw [hself]
      exact fun hnil => htoken.1 (String.toList_eq_nil_iff.mp hnil)
    · rw [hself] at hc
      have hne : c ≠ '(' ∧ c ≠ ')' :=
        ⟨fun h => hopening (h ▸ hc), fun h => hclosing (h ▸ hc)⟩
      simp [BracketPiece.isWordChar, htoken.2 c hc, hne]

/-- The constituents of a licensed tree with plain labels are read back from its brackets exactly if
no token but the parentheses themselves contains a parenthesis. -/
theorem read_brackets {tree : Tree α} (htree : tree.Licensed rules tokens)
    (hfirst : tree.first = 0) (hlabels : tree.HasPlainLabels)
    (htokens : ∀ token ∈ tree.leaves, token ≠ "" ∧ ∀ c ∈ token.toList, Text.isBlank c = false) :
    BracketReader.read tree.brackets = some (tree.constituents.map Constituent.upperCased) ↔
      ∀ token ∈ tree.leaves,
        token = "(" ∨ token = ")" ∨ '(' ∉ token.toList ∧ ')' ∉ token.toList := by
  have hpieces : BracketPiece.ofText tree.brackets.toList = tree.bracketPieces := by
    simpa [BracketPiece.ofText_nil] using BracketPiece.ofText_brackets tree []
  constructor
  · intro hread token ht
    obtain ⟨hopening, hclosing⟩ := BracketReader.count_of_read hread
    rw [hpieces, List.length_map, constituents, List.length_map] at hopening hclosing
    rw [count_bracketPieces hlabels (.inl rfl), Nat.add_eq_left, List.sum_eq_zero_iff] at hopening
    rw [count_bracketPieces hlabels (.inr rfl), Nat.add_eq_left, List.sum_eq_zero_iff] at hclosing
    have hno := List.count_eq_zero.mp (hopening _ (List.mem_map_of_mem ht))
    have hnc := List.count_eq_zero.mp (hclosing _ (List.mem_map_of_mem ht))
    by_cases hopen : token = "("
    · exact .inl hopen
    by_cases hclose : token = ")"
    · exact .inr (.inl hclose)
    rw [bracketToken, if_neg hopen, if_neg hclose] at hno hnc
    exact .inr (.inr ⟨fun h => hno (BracketPiece.opening_mem_ofText h),
      fun h => hnc (BracketPiece.closing_mem_ofText h)⟩)
  · intro hplain
    have hrun := run_bracketPieces htree hlabels
      (fun token ht => ofText_bracketToken (htokens token ht) (hplain token ht)) {} hfirst.symm []
    rw [List.append_nil] at hrun
    rw [BracketReader.read, hpieces, hrun]
    rfl

end Tree

namespace Grammar

variable {α σ : Type} [Weight α] [Score σ] [Logarithm α σ]

/-- The tree of a parse is licensed and covers all tokens. -/
theorem licensed_of_parse {g : Grammar α} {tokens : List String} {options : ParseOptions}
    {a : Analysis α} (h : g.parse tokens options = .ok a) :
    a.tree.Licensed g.rules tokens ∧ a.tree.first = 0 ∧ a.tree.leaves = tokens := by
  obtain ⟨chart, hchart⟩ : ∃ chart, g.chart tokens options = .ok chart := by
    cases hc : g.chart tokens options with
    | ok chart => exact ⟨chart, rfl⟩
    | error e =>
      rw [parse, hc] at h
      cases h
  obtain ⟨hne, progress, hfill, rfl⟩ := fill_of_chart hchart
  obtain ⟨hlength, hcells⟩ :=
    Chart.fill_induction (Chart.fills_soundCell g tokens options.beam options.limit) hfill
  have hlast := pred_length_lt_of_chart hchart
  have hbest := (parse_eq_ok_iff hchart hlength).mp h
  obtain ⟨-, hderives⟩ := (hcells 0 _ (Nat.zero_le _) hlast).derives _ a hbest
  refine ⟨hderives.licensed, hderives.first_eq, ?_⟩
  rw [hderives.licensed.leaves_eq, hderives.first_eq, hderives.last_eq, Tree.spanTokens,
    List.drop_zero, List.take_of_length_le (by omega)]

/-- With plain labels, and with words as tokens, the constituents of a parse are read back from its
brackets, apart from the case of their labels, exactly if no token but the parentheses themselves
contains a parenthesis. -/
theorem read_brackets_iff {g : Grammar α} {tokens : List String} {options : ParseOptions}
    {a : Analysis α} (h : g.parse tokens options = .ok a)
    (hlabels : ∀ label ∈ g.rules.nonterminals, Label.isPlain label = true)
    (htokens : ∀ token ∈ tokens, token ≠ "" ∧ ∀ c ∈ token.toList, Text.isBlank c = false) :
    BracketReader.read a.tree.brackets =
        some (a.tree.constituents.map Constituent.upperCased) ↔
      ∀ token ∈ tokens,
        token = "(" ∨ token = ")" ∨ '(' ∉ token.toList ∧ ')' ∉ token.toList := by
  obtain ⟨hlicensed, hfirst, hleaves⟩ := licensed_of_parse h
  rw [Tree.read_brackets hlicensed hfirst (hlicensed.hasPlainLabels hlabels)
    (hleaves ▸ htokens), hleaves]

/-- A word between parentheses. -/
def parenthesizedRules : Ruleset ℚ :=
  [.binary "S" "Left" "Tail" 1, .binary "Tail" "Word" "Right" 1, .lexical "Left" "(" 1,
    .lexical "Word" "x-1" 1, .lexical "Right" ")" 1]

/-- The grammar of these rules. -/
def parenthesized : Grammar ℚ where
  start := "S"
  rules := parenthesizedRules
  index := .ofRules parenthesizedRules
  rules_ne_nil := List.cons_ne_nil _ _
  rules_valid := by decide +kernel
  index_eq := rfl

/-- Tokens that are parentheses are written as names, and the constituents are read back. -/
theorem read_brackets_parenthesized :
    ∃ a, parenthesized.parse ["(", "X-1", ")"] { beam := 0 } = .ok a ∧
      BracketReader.read a.tree.brackets =
        some (a.tree.constituents.map Constituent.upperCased) := by
  have hunary : ∀ label, parenthesized.unaryRules label = [] := by
    intro label
    rw [unaryRules_eq_filter]
    rfl
  have hcase : Text.lowerCase "x-1" = Text.lowerCase "X-1" := by decide +kernel
  have htree : ∃ tree : Tree ℚ,
      tree.IsDerivation parenthesized.rules ["(", "X-1", ")"] "S" 0 2 := by
    refine ⟨.binary (.binary "S" "Left" "Tail" 1) (.lexical (.lexical "Left" "(" 1) "(" 0)
      (.binary (.binary "Tail" "Word" "Right" 1) (.lexical (.lexical "Word" "x-1" 1) "X-1" 1)
        (.lexical (.lexical "Right" ")" 1) ")" 2)), ?_, rfl, rfl, rfl⟩
    simp only [Tree.licensed_binary, Tree.licensed_lexical, Tree.NodeFits]
    refine ⟨⟨by decide +kernel, rfl, rfl⟩, ⟨by decide +kernel, rfl, "(", rfl, rfl⟩,
      ⟨by decide +kernel, rfl, rfl⟩, ⟨by decide +kernel, rfl, "x-1", rfl, hcase⟩,
      by decide +kernel, rfl, ")", rfl, rfl⟩
  obtain ⟨a, ha⟩ : ∃ a, parenthesized.parse ["(", "X-1", ")"] { beam := 0 } = .ok a :=
    (parse_of_no_unary hunary (List.cons_ne_nil _ _) rfl rfl).mpr htree
  have htokens : ∀ token ∈ ["(", "X-1", ")"],
      token ≠ "" ∧ ∀ c ∈ token.toList, Text.isBlank c = false := by
    have hall : (["(", "X-1", ")"].all fun token =>
        token != "" && token.toList.all fun c => !Text.isBlank c) = true := by decide +kernel
    simpa using hall
  exact ⟨a, ha, (read_brackets_iff ha (by decide +kernel) htokens).mpr (by decide +kernel)⟩

/-- One word with a parenthesis in it. -/
def gluedRules : Ruleset ℚ :=
  [.lexical "S" "a(b" 1]

/-- The grammar of this word. -/
def glued : Grammar ℚ where
  start := "S"
  rules := gluedRules
  index := .ofRules gluedRules
  rules_ne_nil := List.cons_ne_nil _ _
  rules_valid := by decide +kernel
  index_eq := rfl

/-- A parenthesis inside a token opens a constituent that nothing closes. -/
theorem read_brackets_glued :
    (∀ label ∈ glued.rules.nonterminals, Label.isPlain label = true) ∧
      ∃ a, glued.parse ["a(b"] { beam := 0 } = .ok a ∧
        a.tree.brackets = "(S a(b)" ∧
        a.tree.constituents.map Constituent.upperCased = [⟨"S", 0, 0⟩] ∧
        BracketReader.read a.tree.brackets = none := by
  have hunary : ∀ label, glued.unaryRules label = [] := by
    intro label
    rw [unaryRules_eq_filter]
    rfl
  have htree : ∃ tree : Tree ℚ, tree.IsDerivation glued.rules ["a(b"] "S" 0 0 := by
    refine ⟨.lexical (.lexical "S" "a(b" 1) "a(b" 0, Tree.licensed_lexical.mpr ?_, rfl, rfl, rfl⟩
    exact ⟨by decide +kernel, rfl, "a(b", rfl, rfl⟩
  obtain ⟨a, ha⟩ : ∃ a, glued.parse ["a(b"] { beam := 0 } = .ok a :=
    (parse_of_no_unary hunary (List.cons_ne_nil _ _) rfl rfl).mpr htree
  obtain ⟨hlicensed, hfirst, hleaves⟩ := licensed_of_parse ha
  have hrules : ∀ rule ∈ glued.rules, rule = .lexical "S" "a(b" 1 :=
    fun rule hr => List.mem_singleton.mp hr
  have hlexical : a.tree = .lexical (.lexical "S" "a(b" 1) "a(b" 0 := by
    cases hroot : a.tree with
    | lexical rule token position =>
      rw [hroot] at hlicensed hfirst hleaves
      rw [hrules rule (Tree.licensed_lexical.mp hlicensed).1, List.singleton_inj.mp hleaves,
        show position = 0 from hfirst]
    | unary rule child =>
      obtain ⟨⟨hr, hbody⟩, -⟩ := Tree.licensed_unary.mp (hroot ▸ hlicensed)
      rw [hrules rule hr] at hbody
      cases hbody
    | binary rule left right =>
      obtain ⟨⟨hr, hbody, -⟩, -⟩ := Tree.licensed_binary.mp (hroot ▸ hlicensed)
      rw [hrules rule hr] at hbody
      cases hbody
  refine ⟨by decide +kernel, a, ha, ?_⟩
  rw [hlexical]
  decide +kernel

end Grammar

end Constituency
