import Mathlib.Data.List.DropRight
import Mathlib.Data.List.SplitBy
import Constituency.Command.Session
import Constituency.Text.Lines

/-!
# The lines of the input

The input is cut into lines behind every line feed, before its bytes are decoded. In UTF-8 the byte
of a line feed is part of no other character, so this cuts the text into its lines, each with its
ending; and as the characters of an ending are blank, a line has the same words with its ending and
without.
-/
namespace Constituency

/-! ### Lists that are cut behind some elements -/

section Cuts

variable {α β : Type} {ends : α → Bool} {ends' : β → Bool} {a : α} {l : List α}

/-- The pieces of a list that is cut behind the elements with a property. -/
def cutBehind (ends : α → Bool) (l : List α) : List (List α) :=
  l.splitBy fun a _ => !ends a

/-- Puts elements in front of the first piece. -/
def extendFirst (start : List α) : List (List α) → List (List α)
  | [] => [start]
  | first :: rest => (start ++ first) :: rest

theorem cutBehind_cons_of_ends (h : ends a = true) (l : List α) :
    cutBehind ends (a :: l) = [a] :: cutBehind ends l := by
  have hsplit := List.splitBy_append (r := fun a _ => !ends a) (l := [a]) (m := l) (by simp [h])
  exact hsplit

theorem cutBehind_cons_of_not_ends (h : ends a = false) (l : List α) :
    cutBehind ends (a :: l) = extendFirst [a] (cutBehind ends l) := by
  cases hl : cutBehind ends l with
  | nil =>
    obtain rfl := List.splitBy_eq_nil.mp hl
    rfl
  | cons first rest =>
    obtain ⟨rfl, hnil, hchain, hcuts⟩ := List.splitBy_eq_iff.mp hl
    have hne : first ≠ [] := fun hfirst => hnil (hfirst ▸ List.mem_cons_self)
    refine List.splitBy_eq_iff.mpr ⟨rfl, ?_, ?_, ?_⟩
    · exact fun hmem => hnil (List.mem_cons_of_mem _ ((List.mem_cons.mp hmem).resolve_left nofun))
    · obtain ⟨hfirst, hrest⟩ := List.forall_mem_cons.mp hchain
      exact List.forall_mem_cons.mpr ⟨List.isChain_cons.mpr ⟨by simp [h], hfirst⟩, hrest⟩
    · obtain ⟨hcut, hrest⟩ := List.isChain_cons.mp hcuts
      refine List.isChain_cons.mpr ⟨fun next hnext => ?_, hrest⟩
      obtain ⟨hfirst, hhead, hends⟩ := hcut next hnext
      exact ⟨List.cons_ne_nil a first, hhead, by simpa [List.getLast_cons hfirst] using hends⟩

/-- A list of several elements none of which ends a piece is part of the first piece. -/
theorem cutBehind_append {start : List α} (hne : start ≠ []) (h : ∀ a ∈ start, ends a = false)
    (l : List α) : cutBehind ends (start ++ l) = extendFirst start (cutBehind ends l) := by
  induction start with
  | nil => exact absurd rfl hne
  | cons a start ih =>
    obtain ⟨ha, hstart⟩ := List.forall_mem_cons.mp h
    rw [List.cons_append, cutBehind_cons_of_not_ends ha]
    by_cases hnil : start = []
    · rw [hnil, List.nil_append]
    · rw [ih hnil hstart]
      cases cutBehind ends l <;> rfl

/-- If elements are spelled out so that just those that end a piece are spelled with what ends one,
then the pieces are spelled out too. -/
theorem cutBehind_flatMap {spell : α → List β}
    (h : ∀ a, (ends a = true → ∃ b, ends' b = true ∧ spell a = [b]) ∧
      (ends a = false → spell a ≠ [] ∧ ∀ b ∈ spell a, ends' b = false)) (l : List α) :
    cutBehind ends' (l.flatMap spell) = (cutBehind ends l).map (·.flatMap spell) := by
  induction l with
  | nil => rfl
  | cons a l ih =>
    rw [List.flatMap_cons]
    cases ha : ends a with
    | true =>
      obtain ⟨b, hb, hspell⟩ := (h a).1 ha
      rw [hspell, List.singleton_append, cutBehind_cons_of_ends hb, cutBehind_cons_of_ends ha, ih]
      simp [hspell]
    | false =>
      obtain ⟨hne, hspell⟩ := (h a).2 ha
      rw [cutBehind_append hne hspell, cutBehind_cons_of_not_ends ha, ih]
      cases cutBehind ends l <;> simp [extendFirst]

end Cuts

/-! ### Words of lines with their endings -/

namespace Text

/-- The lines of a text with their endings. -/
def linesWithEndings (cs : List Char) : List (List Char) :=
  cutBehind (· == '\n') cs

theorem words_of_blank {cs : List Char} (h : ∀ c ∈ cs, isBlank c = true) : words cs = [] := by
  refine List.filter_eq_nil_iff.mpr fun run hrun => ?_
  obtain ⟨c, rest, rfl⟩ := List.exists_cons_of_ne_nil (List.ne_nil_of_mem_splitBy hrun)
  have hc : c ∈ cs := by
    rw [← List.flatten_splitBy (fun a b => isBlank a == isBlank b) cs]
    exact List.mem_flatten.mpr ⟨_, hrun, List.mem_cons_self⟩
  simp [h c hc]

/-- What is blank and does not stand behind a blank is no part of a word. -/
theorem words_append_of_getLast {cs blanks : List Char} (h : ∀ c ∈ blanks, isBlank c = true)
    (hlast : ∀ c ∈ cs.getLast?, isBlank c = false) : words (cs ++ blanks) = words cs := by
  have hcut : ∀ a ∈ cs.getLast?, ∀ b ∈ blanks.head?, (isBlank a == isBlank b) = false := by
    intro a ha b hb
    rw [hlast a ha, h b (List.mem_of_mem_head? hb)]
    rfl
  have hblanks := words_of_blank h
  rw [words] at hblanks
  rw [words, List.splitBy_append hcut, List.filter_append, hblanks, List.append_nil, words]

/-- Blanks at the end of a text are no part of its words. -/
theorem words_append_of_blank {blanks : List Char} (h : ∀ c ∈ blanks, isBlank c = true)
    (cs : List Char) : words (cs ++ blanks) = words cs := by
  have hlast : ∀ c ∈ (cs.rdropWhile isBlank).getLast?, isBlank c = false := by
    intro c hc
    obtain ⟨hne, rfl⟩ := List.mem_getLast?_eq_getLast hc
    simpa using List.rdropWhile_last_not isBlank cs hne
  have hblank : ∀ c ∈ cs.rtakeWhile isBlank, isBlank c = true := fun c => List.mem_rtakeWhile_imp
  have hcs := words_append_of_getLast hblank hlast
  rw [List.rdropWhile_append_rtakeWhile] at hcs
  rw [hcs, ← words_append_of_getLast (List.forall_mem_append.mpr ⟨hblank, h⟩) hlast,
    ← List.append_assoc, List.rdropWhile_append_rtakeWhile]

/-- A line with its ending and without. -/
def EndsLine (full line : List Char) : Prop :=
  ∃ ending, full = line ++ ending ∧ ∀ c ∈ ending, isBlank c = true

theorem EndsLine.cons {full line : List Char} (h : EndsLine full line) (c : Char) :
    EndsLine (c :: full) (c :: line) := by
  obtain ⟨ending, rfl, hblank⟩ := h
  exact ⟨ending, rfl, hblank⟩

/-- The lines with endings are the lines, with their endings. -/
theorem forall₂_lines (cs : List Char) :
    List.Forall₂ EndsLine (linesWithEndings cs) (lines cs) := by
  induction cs with
  | nil => exact .nil
  | cons c rest ih =>
    by_cases hc : c = '\n'
    · subst hc
      rw [linesWithEndings, cutBehind_cons_of_ends rfl, lines, if_pos rfl]
      exact .cons ⟨['\n'], rfl, List.forall_mem_singleton.mpr rfl⟩ ih
    · rw [linesWithEndings, cutBehind_cons_of_not_ends (by simpa using hc), lines, if_neg hc]
      rw [linesWithEndings] at ih
      -- a carriage return before a line feed belongs to the ending
      have hempty : rest.head? = some '\n' → ∃ more, lines rest = [] :: more := by
        intro hhead
        obtain ⟨more, rfl⟩ := List.head?_eq_some_iff.mp hhead
        exact ⟨lines more, by rw [lines, if_pos rfl]⟩
      generalize cutBehind (· == '\n') rest = fulls at ih
      generalize lines rest = plain at ih hempty
      cases ih with
      | nil => exact .cons ⟨[], rfl, List.forall_mem_nil _⟩ .nil
      | @cons full line fulls plain hfirst hmore =>
        rw [extendFirst, extendLines]
        split
        · rename_i hreturn
          obtain ⟨rfl, hhead⟩ := hreturn
          obtain ⟨more, hlines⟩ := hempty (of_decide_eq_true hhead)
          obtain ⟨rfl, rfl⟩ := List.cons.inj hlines
          obtain ⟨_, rfl, hblank⟩ := hfirst
          exact .cons ⟨'\r' :: _, rfl, List.forall_mem_cons.mpr ⟨by decide, hblank⟩⟩ hmore
        · exact .cons (hfirst.cons c) hmore

/-- What is made of the words of the lines is the same with the endings and without. -/
theorem map_linesWithEndings {β : Type} (f : List (List Char) → β) (cs : List Char) :
    (linesWithEndings cs).map (fun line => f (words line)) =
      (lines cs).map fun line => f (words line) := by
  have h := forall₂_lines cs
  generalize linesWithEndings cs = fulls at h
  generalize lines cs = plain at h
  induction h with
  | nil => rfl
  | cons hfirst _ ih =>
    obtain ⟨ending, rfl, hblank⟩ := hfirst
    rw [List.map_cons, List.map_cons, ih, words_append_of_blank hblank]

end Text

/-! ### Lines of bytes -/

/-- The bytes of a text. -/
def Text.bytes (cs : List Char) : List UInt8 :=
  cs.flatMap String.utf8EncodeChar

/-- Every byte of a character is the character itself or lies above all single bytes. -/
theorem byte_of_utf8EncodeChar (c : Char) :
    ∀ b ∈ String.utf8EncodeChar c, b.toNat = c.toNat ∨ 0x80 ≤ b.toNat := by
  have hval : c.toNat = c.val.toNat := rfl
  simp only [String.utf8EncodeChar]
  split_ifs
  all_goals
    simp only [List.forall_mem_cons, List.not_mem_nil, false_implies, implies_true, and_true,
      UInt8.toNat_ofNat']
    omega

/-- The byte of a line feed is part of no other character. -/
theorem ne_feed_of_mem_utf8EncodeChar {c : Char} (hc : c ≠ '\n') {b : UInt8}
    (hb : b ∈ String.utf8EncodeChar c) : b ≠ 10 := by
  rintro rfl
  rcases byte_of_utf8EncodeChar c 10 hb with h | h
  · exact hc (Char.toNat_inj.mp h.symm)
  · exact absurd h (by decide)

theorem toList_loop_eq (bytes : ByteArray) (i : Nat) (read : List UInt8) :
    ByteArray.toList.loop bytes i read = read.reverse ++ bytes.data.toList.drop i := by
  fun_induction ByteArray.toList.loop bytes i read with
  | case1 i read h ih =>
    have hi : i < bytes.data.toList.length := h
    have hbyte : bytes.get! i = bytes.data.toList[i] := by simp [ByteArray.get!, h]
    rw [ih, hbyte, List.reverse_cons, List.append_assoc, List.singleton_append,
      ← List.drop_eq_getElem_cons]
  | case2 i read h =>
    rw [List.drop_of_length_le (Nat.not_lt.mp h), List.append_nil]

theorem toList_eq_toList_data (bytes : ByteArray) : bytes.toList = bytes.data.toList := by
  rw [ByteArray.toList, toList_loop_eq, List.reverse_nil, List.nil_append, List.drop_zero]

namespace Command

/-- The lines of bytes that are cut before they are decoded are the lines of the text. -/
theorem inputLines_bytes (cs : List Char) :
    inputLines (Text.bytes cs) = (Text.linesWithEndings cs).map Text.bytes := by
  have hspell : ∀ c, ((c == '\n') = true →
        ∃ b : UInt8, (b == 10) = true ∧ String.utf8EncodeChar c = [b]) ∧
      ((c == '\n') = false → String.utf8EncodeChar c ≠ [] ∧
        ∀ b ∈ String.utf8EncodeChar c, (b == 10) = false) := by
    intro c
    constructor
    · intro hc
      obtain rfl : c = '\n' := by simpa using hc
      exact ⟨10, rfl, by decide⟩
    · intro hc
      have hne : c ≠ '\n' := by simpa using hc
      exact ⟨String.utf8EncodeChar_ne_nil,
        fun b hb => by simpa using ne_feed_of_mem_utf8EncodeChar hne hb⟩
  exact cutBehind_flatMap hspell cs

/-- Text can be decoded from its bytes. -/
theorem decode_bytes (cs : List Char) :
    FileError.decode ⟨(Text.bytes cs).toArray⟩ = .ok (String.ofList cs) := by
  have hbytes : (⟨(Text.bytes cs).toArray⟩ : ByteArray) = cs.utf8Encode :=
    ByteArray.ext List.data_toByteArray.symm
  rw [hbytes, FileError.decode, String.fromUTF8?, dif_pos ByteArray.isValidUTF8_utf8Encode]
  exact congrArg Except.ok (String.toByteArray_inj.mp String.toByteArray_ofList.symm)

theorem toList_of_decode {bytes : ByteArray} {text : String}
    (h : FileError.decode bytes = .ok text) : bytes.toList = Text.bytes text.toList := by
  rw [FileError.decode, String.fromUTF8?] at h
  by_cases hvalid : bytes.IsValidUTF8
  · rw [dif_pos hvalid] at h
    have htext : text.toByteArray = bytes := by rw [← Except.ok.inj h]; rfl
    rw [toList_eq_toList_data, ← htext, ← String.utf8Encode_toList]
    exact List.toList_data_toByteArray
  · rw [dif_neg hvalid] at h
    cases h

end Command

end Constituency
