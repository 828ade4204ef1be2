import Constituency.Proofs.GrammarFile.Format

/-!
# What is taken from a text

Blanks and comments are dropped as one gap, whatever parts a spelling counts as gaps. A symbol or a
number is taken exactly where one is spelled: what is taken is spelled there, and what is spelled is
taken whole, as long as what follows cannot belong to it.
-/
namespace Constituency

open Except (bind_eq_ok_iff mapError_eq_ok_iff)

namespace Text.Delimited

theorem read?_cons_close {close : Char} (hclose : close ≠ '\\') (rest : List Char) :
    read? close (close :: rest) = some ([], rest) := by
  unfold read?
  split <;> simp_all

theorem read?_cons_plain {close c : Char} (hne : c ≠ close) (hescape : c ≠ '\\')
    (cs : List Char) : read? close (c :: cs) = (read? close cs).map fun r => (c :: r.1, r.2) := by
  rw [read?.eq_def]
  split <;> simp_all

/-- What is read up to the closing delimiter is the text that stands escaped there. -/
theorem read?_eq_some_iff {close : Char} (hclose : close ≠ '\\') {cs text rest : List Char} :
    read? close cs = some (text, rest) ↔
      ∃ raw, GrammarFile.Escaped close text raw ∧ cs = raw ++ close :: rest := by
  constructor
  · intro h
    fun_induction read? close cs generalizing text rest with
    | case1 | case2 | case3 => simp at h
    | case4 c cs hline ih =>
      obtain ⟨⟨text', rest'⟩, hread, hpair⟩ := Option.map_eq_some_iff.mp h
      cases hpair
      obtain ⟨raw, hraw, rfl⟩ := ih hread
      exact ⟨'\\' :: c :: raw, .escaped hline hraw, rfl⟩
    | case5 cs =>
      cases h
      exact ⟨[], .nil, rfl⟩
    | case6 c cs hlast hescape hne ih =>
      obtain ⟨⟨text', rest'⟩, hread, hpair⟩ := Option.map_eq_some_iff.mp h
      cases hpair
      obtain ⟨raw, hraw, rfl⟩ := ih hread
      have hplain : c ≠ '\\' := by
        rintro rfl
        cases hcs : raw ++ close :: rest' with
        | nil => exact hlast rfl hcs
        | cons d ds => exact hescape d ds rfl hcs
      exact ⟨c :: raw, .plain hne hplain hraw, rfl⟩
  · rintro ⟨raw, hraw, rfl⟩
    induction hraw with
    | nil => exact read?_cons_close hclose rest
    | plain hne hescape h ih => rw [List.cons_append, read?_cons_plain hne hescape, ih]; rfl
    | escaped hline h ih => simp [read?, hline, ih]

end Text.Delimited

namespace GrammarFile

variable {cs rest : List Char}

/-! ### Gaps -/

/-- A gap is dropped, with all that is left of it behind. -/
theorem Gap.skipBlanks_eq (h : Gap cs rest) : skipBlanks cs = skipBlanks rest := by
  induction h with
  | nil rest => rfl
  | blank hc h ih => rw [skipBlanks_of_isBlank hc, ih]
  | comment htext hline h ih => rw [skipBlanks_slashes htext hline, ih]

/-- What is dropped is a gap, or inside a comment the rest of its line and a gap behind it. -/
theorem gap_skipFrom (comment : Bool) (cs : List Char) :
    (comment = false → Gap cs (skipFrom comment cs)) ∧
      (comment = true → ∃ text behind, cs = text ++ behind ∧ '\n' ∉ text ∧
        (∀ c ∈ behind.head?, c = '\n') ∧ Gap behind (skipFrom comment cs)) := by
  fun_induction skipFrom comment cs with
  | case1 comment => exact ⟨fun _ => .nil [], fun _ => ⟨[], [], rfl, by simp, by simp, .nil []⟩⟩
  | case2 c rest ih =>
    refine ⟨fun h => absurd h (by simp), fun _ => ?_⟩
    by_cases hc : c = '\n'
    · subst hc
      exact ⟨[], '\n' :: rest, rfl, by simp, by simp, .blank (by decide) (ih.1 (by simp))⟩
    · obtain ⟨text, behind, rfl, htext, hline, hgap⟩ := ih.2 (by simpa using hc)
      exact ⟨c :: text, behind, rfl, by simp [Ne.symm hc, htext], hline, hgap⟩
  | case3 comment c rest hcomment hblank ih =>
    exact ⟨fun _ => .blank hblank (ih.1 rfl), fun h => absurd h hcomment⟩
  | case4 comment c rest hcomment hblank hslash ih =>
    refine ⟨fun _ => ?_, fun h => absurd h hcomment⟩
    obtain ⟨text, behind, rfl, htext, hline, hgap⟩ := ih.2 rfl
    cases text with
    | nil => exact absurd (hline '/' hslash.2) (by decide)
    | cons d text =>
      obtain ⟨rfl, hd⟩ := hslash
      obtain rfl : d = '/' := by simpa using hd
      -- The second slash was dropped as a part of the comment.
      exact .comment (fun h => htext (List.mem_cons_of_mem _ h)) hline hgap
  | case5 comment c rest hcomment hblank hslash =>
    exact ⟨fun _ => .nil _, fun h => absurd h hcomment⟩

/-- What is dropped is a gap. -/
theorem gap_skipBlanks (cs : List Char) : Gap cs (skipBlanks cs) :=
  (gap_skipFrom false cs).1 rfl

theorem skipBlanks_skipBlanks (cs : List Char) : skipBlanks (skipBlanks cs) = skipBlanks cs :=
  (gap_skipBlanks cs).skipBlanks_eq.symm

/-! ### Names and symbols -/

theorem head?_dropWhile (p : Char → Bool) (cs : List Char) :
    ∀ c ∈ (cs.dropWhile p).head?, p c = false := by
  intro c hc
  have h := List.head?_dropWhile_not p cs
  rw [Option.mem_def.mp hc] at h
  exact h

theorem readName_eq_ok_iff {name : String} :
    readName cs = .ok (name, rest) ↔
      name.toList ≠ [] ∧ (∀ c ∈ name.toList, Label.isNameChar c = true) ∧ EndsName rest ∧
        cs = name.toList ++ rest := by
  constructor
  · intro h
    simp only [readName] at h
    split at h
    · cases h
    · rename_i hne
      cases h
      rw [String.toList_ofList]
      exact ⟨hne, fun c hc => List.all_eq_true.mp List.all_takeWhile c hc, head?_dropWhile _ cs,
        List.takeWhile_append_dropWhile.symm⟩
  · rintro ⟨hne, hname, hrest, rfl⟩
    rw [readName_append hne hname hrest, String.ofList_toList]

theorem readDelimited_eq_ok_iff {place : Place} {expected : Expected} {opening close : Char}
    (hclose : close ≠ '\\') {text : String} :
    readDelimited place expected close (opening :: cs) = .ok (text, rest) ↔
      ∃ raw, Escaped close text.toList raw ∧ cs = raw ++ close :: rest := by
  rw [← Text.Delimited.read?_eq_some_iff hclose, readDelimited, List.tail_cons]
  cases Text.Delimited.read? close cs with
  | none => simp
  | some reading =>
    simp only [Except.ok.injEq, Option.some.injEq, Prod.ext_iff, ← String.toList_inj,
      String.toList_ofList]

/-- A symbol is taken exactly where one is spelled. -/
theorem readSymbol_eq_ok_iff {symbol : Symbol} :
    readSymbol cs = .ok (symbol, rest) ↔ SymbolAt symbol cs rest := by
  constructor
  · intro h
    unfold readSymbol at h
    split at h
    · rename_i hquote
      obtain ⟨cs, rfl⟩ := List.head?_eq_some_iff.mp hquote
      obtain ⟨⟨word, behind⟩, hread, hpair⟩ := bind_eq_ok_iff.mp h
      cases hpair
      obtain ⟨raw, hraw, rfl⟩ := (readDelimited_eq_ok_iff (by decide)).mp hread
      simpa using SymbolAt.quoted hraw rest
    · rename_i hangle
      obtain ⟨cs, rfl⟩ := List.head?_eq_some_iff.mp hangle
      obtain ⟨⟨label, behind⟩, hread, hpair⟩ := bind_eq_ok_iff.mp h
      cases hpair
      obtain ⟨raw, hraw, rfl⟩ := (readDelimited_eq_ok_iff (by decide)).mp hread
      simpa using SymbolAt.bracketed hraw rest
    · obtain ⟨⟨name, behind⟩, hread, hpair⟩ := bind_eq_ok_iff.mp h
      cases hpair
      obtain ⟨hne, hname, hrest, rfl⟩ := readName_eq_ok_iff.mp (mapError_eq_ok_iff.mp hread)
      obtain ⟨c, name', hcons⟩ := List.exists_cons_of_ne_nil hne
      obtain rfl : String.ofList (c :: name') = name := by rw [← hcons, String.ofList_toList]
      rw [String.toList_ofList] at hname ⊢
      cases hlower : c.isLower with
      | true => simpa [hlower] using SymbolAt.word hname hlower hrest
      | false => simpa [hlower] using SymbolAt.label hname hlower hrest
  · intro h
    cases h with
    | @quoted word raw h =>
      have hread : readDelimited .quotedWord .quotedWord '"' ('"' :: (raw ++ '"' :: rest)) =
          .ok (String.ofList word, rest) :=
        (readDelimited_eq_ok_iff (by decide)).mpr ⟨raw, by rwa [String.toList_ofList], rfl⟩
      exact bind_eq_ok_iff.mpr ⟨_, hread, rfl⟩
    | @bracketed label raw h =>
      have hread : readDelimited .label .label '>' ('<' :: (raw ++ '>' :: rest)) =
          .ok (String.ofList label, rest) :=
        (readDelimited_eq_ok_iff (by decide)).mpr ⟨raw, by rwa [String.toList_ofList], rfl⟩
      exact bind_eq_ok_iff.mpr ⟨_, hread, rfl⟩
    | word hname hlower hrest => rw [readSymbol_name hname hrest, if_pos hlower]
    | label hname hlower hrest => rw [readSymbol_name hname hrest, if_neg (by simp [hlower])]

/-! ### Numbers -/

open Decimal

theorem readSign_of_isDigit {ds : List Char} (hne : ds ≠ []) (hds : ∀ d ∈ ds, d.isDigit = true) :
    readSign (ds ++ rest) = (false, ds ++ rest) := by
  obtain ⟨d, ds, rfl⟩ := List.exists_cons_of_ne_nil hne
  have hd := hds d List.mem_cons_self
  unfold readSign
  split
  · rename_i heq
    cases heq
    exact absurd hd (by decide)
  · rename_i heq
    cases heq
    exact absurd hd (by decide)
  · rfl

/-- A power of ten is taken whole. -/
theorem readExponent_append {exponent : Int} {text : List Char} (h : ExponentText exponent text)
    (hrest : EndsNumber rest) : readExponent (text ++ rest) = (exponent, rest) := by
  cases h with
  | none => exact readExponent_of_endsNumber hrest
  | unsigned hmark hne hds =>
    obtain ⟨htake, hdrop⟩ := span_append hds hrest.isDigit_eq_false
    simp [readExponent, readSign_of_isDigit hne hds, htake, hdrop, hmark, hne]
  | plus hmark hne hds =>
    obtain ⟨htake, hdrop⟩ := span_append hds hrest.isDigit_eq_false
    simp [readExponent, readSign, htake, hdrop, hmark, hne]
  | minus hmark hne hds =>
    obtain ⟨htake, hdrop⟩ := span_append hds hrest.isDigit_eq_false
    simp [readExponent, readSign, htake, hdrop, hmark, hne]

/-- Neither a power of ten nor what ends a number goes on with digits. -/
theorem head?_exponentText {exponent : Int} {text : List Char} (h : ExponentText exponent text)
    (hrest : EndsNumber rest) :
    (∀ c ∈ (text ++ rest).head?, c.isDigit = false) ∧ ∀ c ∈ (text ++ rest).head?, c ≠ '.' := by
  have hmarked : ∀ mark : Char, mark = 'e' ∨ mark = 'E' → ∀ tail : List Char,
      (∀ c ∈ (mark :: tail).head?, c.isDigit = false) ∧ ∀ c ∈ (mark :: tail).head?, c ≠ '.' := by
    rintro mark (rfl | rfl) tail <;>
      exact ⟨by rintro c ⟨⟩; decide, by rintro c ⟨⟩; decide⟩
  cases h with
  | none => exact ⟨hrest.isDigit_eq_false, hrest.ne_point⟩
  | unsigned hmark => exact hmarked _ hmark _
  | plus hmark => exact hmarked _ hmark _
  | minus hmark => exact hmarked _ hmark _

theorem readSign_cases (cs : List Char) :
    (∃ tail, cs = '-' :: tail ∧ readSign cs = (true, tail)) ∨
      (∃ tail, cs = '+' :: tail ∧ readSign cs = (false, tail)) ∨ readSign cs = (false, cs) := by
  unfold readSign
  split
  · exact .inl ⟨_, rfl, rfl⟩
  · exact .inr (.inl ⟨_, rfl, rfl⟩)
  · exact .inr (.inr rfl)

/-- What is taken as a power of ten spells it. -/
theorem exists_exponentText (cs : List Char) :
    ∃ text, ExponentText (readExponent cs).1 text ∧ cs = text ++ (readExponent cs).2 := by
  cases cs with
  | nil => exact ⟨[], .none, rfl⟩
  | cons mark tail =>
    by_cases hcond : (mark = 'e' ∨ mark = 'E') ∧ (readSign tail).2.takeWhile Char.isDigit ≠ []
    · obtain ⟨hmark, hne⟩ := hcond
      have hds : ∀ d ∈ (readSign tail).2.takeWhile Char.isDigit, d.isDigit = true :=
        List.all_eq_true.mp List.all_takeWhile
      rw [readExponent, if_pos ⟨hmark, hne⟩]
      rcases readSign_cases tail with ⟨behind, rfl, hsign⟩ | ⟨behind, rfl, hsign⟩ | hsign <;>
        rw [hsign] at hne hds ⊢
      · exact ⟨mark :: '-' :: behind.takeWhile Char.isDigit, .minus hmark hne hds, by simp⟩
      · exact ⟨mark :: '+' :: behind.takeWhile Char.isDigit, .plus hmark hne hds, by simp⟩
      · exact ⟨mark :: tail.takeWhile Char.isDigit, .unsigned hmark hne hds, by simp⟩
    · rw [readExponent, if_neg hcond]
      exact ⟨[], .none, rfl⟩

/-- What is taken as a number spells it. -/
theorem exists_numberText {n : Numeral} (h : Numeral.read? cs = some (n, rest)) :
    ∃ number, NumberText n number ∧ cs = number ++ rest := by
  have hwhole : ∀ d ∈ cs.takeWhile Char.isDigit, d.isDigit = true :=
    List.all_eq_true.mp List.all_takeWhile
  have hsplit := List.takeWhile_append_dropWhile (p := Char.isDigit) (l := cs)
  simp only [Numeral.read?, Numeral.withExponent] at h
  split at h
  · rename_i hne
    obtain ⟨tail, htail⟩ : ∃ tail, cs.dropWhile Char.isDigit = '.' :: tail := by
      unfold fractionDigits at hne
      split at hne
      · rename_i tail heq
        exact ⟨tail, heq⟩
      · exact absurd rfl hne
    have hfraction : ∀ d ∈ tail.takeWhile Char.isDigit, d.isDigit = true :=
      List.all_eq_true.mp List.all_takeWhile
    have hbehind :
        tail.drop (tail.takeWhile Char.isDigit).length = tail.dropWhile Char.isDigit := by
      calc tail.drop (tail.takeWhile Char.isDigit).length
          = (tail.takeWhile Char.isDigit ++ tail.dropWhile Char.isDigit).drop
              (tail.takeWhile Char.isDigit).length := by rw [List.takeWhile_append_dropWhile]
        _ = tail.dropWhile Char.isDigit := List.drop_left
    rw [htail, fractionDigits] at hne h
    rw [List.drop_succ_cons, hbehind] at h
    cases h
    obtain ⟨text, htext, hrest⟩ := exists_exponentText (tail.dropWhile Char.isDigit)
    refine ⟨_, .pointed hwhole hne hfraction htext, ?_⟩
    rw [List.append_assoc, List.cons_append, List.append_assoc, ← hrest,
      List.takeWhile_append_dropWhile, ← htail, hsplit]
  · split at h
    · rename_i hne
      cases h
      obtain ⟨text, htext, hrest⟩ := exists_exponentText (cs.dropWhile Char.isDigit)
      refine ⟨_, .whole hne hwhole htext, ?_⟩
      rw [List.append_assoc, ← hrest, hsplit]
    · cases h

/-- A number is taken whole. -/
theorem read?_append {n : Numeral} {number : List Char} (h : NumberText n number)
    (hrest : EndsNumber rest) : Numeral.read? (number ++ rest) = some (n, rest) := by
  cases h with
  | whole hne hds h =>
    obtain ⟨hdigit, hpoint⟩ := head?_exponentText h hrest
    rw [List.append_assoc]
    exact read?_whole hne hds hdigit hpoint (readExponent_append h hrest)
  | pointed hwhole hne hfraction h =>
    obtain ⟨hdigit, -⟩ := head?_exponentText h hrest
    rw [List.append_assoc, List.cons_append, List.append_assoc]
    exact read?_pointed hwhole hne hfraction hdigit (readExponent_append h hrest)

end GrammarFile

end Constituency
