import Flick.Datum.Outline
import Mathlib.Data.List.Basic
import Mathlib.Data.List.Forall2
import Mathlib.Data.List.Infix

/-!
# Texts that can be told apart

What an outline or a listing says must be seen from its text, whatever the
texts in it are.  For that it is not enough that two different things have
two different texts.  Texts stand in front of other texts, so each must
also show where it ends.  `Legible` says both.

* `Legible.framed` and `eq_of_join_append`: what is legible stays so between
  two marks, and a sequence is legible up to a mark that no part of it
  begins with.
* `legible_letter`: the characters of a quoted text, each with a short name,
  as it is, or by its code point.
* `legible_quotes`: a quoted text, for any choice of the characters that
  are written by their code points.
-/

namespace Flick

variable {α : Type} {Shows : α → String → Prop} {a : α} {as bs : List α}

/-- Each text that shows `a` shows nothing else, and what stands behind it
cannot be taken for a part of it. -/
def Legible (Shows : α → String → Prop) (a : α) : Prop :=
  ∀ ⦃b : α⦄ ⦃text other : String⦄ ⦃rest more : List Char⦄, Shows a text → Shows b other →
    text.toList ++ rest = other.toList ++ more → a = b ∧ rest = more

theorem Legible.eq {b : α} {text : String} (h : Legible Shows a) (ha : Shows a text)
    (hb : Shows b text) : a = b :=
  (h ha hb (rfl : text.toList ++ [] = text.toList ++ [])).1

theorem Legible.framed (h : Legible Shows a) (opening closing : String) :
    Legible (fun b text => ∃ inner, Shows b inner ∧ text = opening ++ inner ++ closing) a := by
  rintro b _ _ rest more ⟨text, hshows, rfl⟩ ⟨other, hother, rfl⟩ heq
  simp only [String.toList_append, List.append_assoc, List.append_cancel_left_eq] at heq
  obtain ⟨rfl, hrest⟩ := h hshows hother heq
  exact ⟨rfl, List.append_cancel_left hrest⟩

/-- A sequence is told from all others by the mark that ends it, if no part
of a sequence begins with that mark. -/
theorem eq_of_join_append {texts others : List String} {mark rest more : List Char}
    (hlegible : ∀ a ∈ as, Legible Shows a)
    (hmark : ∀ {b text before after}, Shows b text → text.toList ++ before ≠ mark ++ after)
    (h : List.Forall₂ Shows as texts) (hother : List.Forall₂ Shows bs others)
    (heq : (String.join texts).toList ++ (mark ++ rest) =
      (String.join others).toList ++ (mark ++ more)) :
    as = bs ∧ rest = more := by
  induction h generalizing bs others with
  | nil =>
    cases hother with
    | nil => exact ⟨rfl, by simpa using heq⟩
    | cons hhead _ =>
      rw [String.join_cons, String.toList_append, List.append_assoc, String.join_nil,
        String.toList_empty, List.nil_append] at heq
      exact absurd heq.symm (hmark hhead)
  | @cons a text as texts hhead _ ih =>
    rw [String.join_cons, String.toList_append, List.append_assoc] at heq
    cases hother with
    | nil =>
      rw [String.join_nil, String.toList_empty, List.nil_append] at heq
      exact absurd heq (hmark hhead)
    | cons hhead' htail' =>
      rw [String.join_cons, String.toList_append, List.append_assoc] at heq
      obtain ⟨hfirst, hothers⟩ := List.forall_mem_cons.mp hlegible
      obtain ⟨rfl, htail⟩ := hfirst hhead hhead' heq
      obtain ⟨rfl, hrest⟩ := ih hothers htail' htail
      exact ⟨rfl, hrest⟩

/-- What stands in front of the first mark, and behind it. -/
theorem eq_of_append_cons {c : α} {rest more : List α} (has : c ∉ as) (hbs : c ∉ bs)
    (heq : as ++ c :: rest = bs ++ c :: more) : as = bs ∧ rest = more := by
  induction as generalizing bs with
  | nil =>
    cases bs with
    | nil => exact ⟨rfl, List.tail_eq_of_cons_eq heq⟩
    | cons b bs => exact absurd (List.head_eq_of_cons_eq heq) (List.ne_of_not_mem_cons hbs)
  | cons a as ih =>
    cases bs with
    | nil => exact absurd (List.head_eq_of_cons_eq heq).symm (List.ne_of_not_mem_cons has)
    | cons b bs =>
      obtain ⟨rfl, htail⟩ := List.cons.inj heq
      obtain ⟨rfl, hrest⟩ :=
        ih (List.not_mem_of_not_mem_cons has) (List.not_mem_of_not_mem_cons hbs) htail
      exact ⟨rfl, hrest⟩

namespace Text

/-! ## Digits -/

theorem exists_of_mem_hexDigits {n : Nat} {digit : Char} (h : digit ∈ hexDigits n) :
    ∃ value < 16, digit = Nat.digitChar value := by
  induction n using Nat.strongRecOn with
  | ind n ih =>
    obtain hn | hn := Nat.lt_or_ge n 16
    · rw [hexDigits, Nat.toDigits_of_lt_base hn, List.mem_singleton] at h
      exact ⟨n, hn, h⟩
    · rw [hexDigits, Nat.toDigits_of_base_le (by decide) hn, List.mem_append,
        List.mem_singleton] at h
      obtain h | h := h
      · exact ih (n / 16) (by omega) h
      · exact ⟨n % 16, Nat.mod_lt _ (by decide), h⟩

theorem isAlphanum_of_mem_hexDigits {n : Nat} {digit : Char} (h : digit ∈ hexDigits n) :
    digit.isAlphanum = true := by
  obtain ⟨value, hvalue, rfl⟩ := exists_of_mem_hexDigits h
  have hdigits : ∀ value < 16, (Nat.digitChar value).isAlphanum = true := by decide
  exact hdigits value hvalue

theorem digitChar_inj : ∀ a < 16, ∀ b < 16, Nat.digitChar a = Nat.digitChar b → a = b := by
  decide

theorem hexDigits_append_ne (n : Nat) (last digit : Char) : hexDigits n ++ [last] ≠ [digit] := by
  simp [hexDigits, List.append_eq_singleton_iff, Nat.toDigits_ne_nil]

/-- The digits of a number tell the number. -/
theorem hexDigits_inj {m n : Nat} (h : hexDigits m = hexDigits n) : m = n := by
  induction m using Nat.strongRecOn generalizing n with
  | ind m ih =>
    have hbase : 1 < 16 := by decide
    simp only [hexDigits] at h ih
    obtain hm | hm := Nat.lt_or_ge m 16 <;> obtain hn | hn := Nat.lt_or_ge n 16
    · rw [Nat.toDigits_of_lt_base hm, Nat.toDigits_of_lt_base hn] at h
      exact digitChar_inj m hm n hn (List.singleton_inj.mp h)
    · rw [Nat.toDigits_of_lt_base hm, Nat.toDigits_of_base_le hbase hn] at h
      exact absurd h.symm (hexDigits_append_ne _ _ _)
    · rw [Nat.toDigits_of_base_le hbase hm, Nat.toDigits_of_lt_base hn] at h
      exact absurd h (hexDigits_append_ne _ _ _)
    · rw [Nat.toDigits_of_base_le hbase hm, Nat.toDigits_of_base_le hbase hn] at h
      obtain ⟨hfront, hlast⟩ := List.append_inj' h rfl
      have hquotient : m / 16 = n / 16 := ih (m / 16) (by omega) hfront
      have hremainder : m % 16 = n % 16 :=
        digitChar_inj _ (Nat.mod_lt _ (by decide)) _ (Nat.mod_lt _ (by decide))
          (List.singleton_inj.mp hlast)
      omega

/-! ## Letters -/

/-- The characters that have a short name, and the names.  A name stands
behind a backslash. -/
def shortNames : List (Char × Char) :=
  [('\x00', '0'), ('\t', 't'), ('\n', 'n'), ('\r', 'r'), ('\x22', '\x22'), ('\\', '\\')]

/-- The ways to write a character of a quoted text.  A character that has no
short name may be written as it is or by its code point. -/
inductive Letter : Char → String → Prop
  | named {c name : Char} (h : (c, name) ∈ shortNames) : Letter c (String.ofList (backslash name))
  | verbatim {c : Char} (h : c ∉ shortNames.map Prod.fst) : Letter c (String.singleton c)
  | coded {c : Char} (h : c ∉ shortNames.map Prod.fst) :
      Letter c ("\\u\x7b" ++ String.ofList (hexDigits c.toNat) ++ "\x7d")

variable {c : Char} {letter text quoted : String}

theorem ne_of_not_mem_shortNames (h : c ∉ shortNames.map Prod.fst) :
    c ≠ '\\' ∧ c ≠ '\x22' ∧ c ≠ '\n' := by
  refine ⟨?_, ?_, ?_⟩ <;> rintro rfl <;> exact h (by decide)

theorem shortNames_inj : ∀ first ∈ shortNames, ∀ second ∈ shortNames,
    first.2 = second.2 → first.1 = second.1 := by
  decide

theorem ne_of_mem_shortNames : ∀ entry ∈ shortNames, entry.2 ≠ 'u' ∧ entry.2 ≠ '\n' := by
  decide

theorem legible_letter (c : Char) : Legible Letter c := by
  intro d text other rest more hc hd heq
  cases hc with
  | @named name hname =>
    cases hd with
    | @named name' hname' =>
      simp only [backslash, String.toList_ofList, List.cons_append, List.nil_append,
        List.cons.injEq, true_and] at heq
      exact ⟨shortNames_inj _ hname _ hname' heq.1, heq.2⟩
    | verbatim hverbatim =>
      simp only [backslash, String.toList_ofList, String.toList_singleton, List.cons_append,
        List.cons.injEq] at heq
      exact absurd heq.1.symm (ne_of_not_mem_shortNames hverbatim).1
    | coded _ =>
      simp [backslash, (ne_of_mem_shortNames _ hname).1] at heq
  | verbatim hverbatim =>
    have hne := (ne_of_not_mem_shortNames hverbatim).1
    cases hd with
    | named _ => simp [backslash, hne] at heq
    | verbatim _ => simpa using heq
    | coded _ => simp [hne] at heq
  | coded _ =>
    cases hd with
    | @named name' hname' =>
      simp [backslash, (ne_of_mem_shortNames _ hname').1.symm] at heq
    | verbatim hverbatim =>
      simp [(ne_of_not_mem_shortNames hverbatim).1.symm] at heq
    | coded _ =>
      have hbrace (n : Nat) : '\x7d' ∉ hexDigits n := fun h =>
        absurd (isAlphanum_of_mem_hexDigits h) (by decide)
      simp only [String.toList_append, String.toList_ofList, List.append_assoc,
        List.append_cancel_left_eq] at heq
      obtain ⟨hdigits, hrest⟩ := eq_of_append_cons (hbrace _) (hbrace _) heq
      exact ⟨Char.toNat_inj.mp (hexDigits_inj hdigits), hrest⟩

/-- No letter begins with a quote, so the closing quote is not one. -/
theorem Letter.ne_quote {rest more : List Char} (h : Letter c letter) :
    letter.toList ++ rest ≠ ['\x22'] ++ more := by
  cases h with
  | named _ => simp [backslash]
  | verbatim hverbatim => simp [(ne_of_not_mem_shortNames hverbatim).2.1]
  | coded _ => simp

theorem Letter.not_mem (h : Letter c letter) : '\n' ∉ letter.toList := by
  cases h with
  | named hname => simp [backslash, (ne_of_mem_shortNames _ hname).2.symm]
  | verbatim hverbatim => simpa using (ne_of_not_mem_shortNames hverbatim).2.2.symm
  | coded _ =>
    have hdigits : '\n' ∉ hexDigits c.toNat := fun h =>
      absurd (isAlphanum_of_mem_hexDigits h) (by decide)
    simpa using hdigits

/-! ## Quoted texts -/

/-- The ways to quote a text. -/
def Quotes (text quoted : String) : Prop :=
  ∃ letters, List.Forall₂ Letter text.toList letters ∧
    quoted = "\x22" ++ String.join letters ++ "\x22"

theorem legible_quotes (text : String) : Legible Quotes text := by
  rintro other _ _ rest more ⟨letters, hletters, rfl⟩ ⟨letters', hletters', rfl⟩ heq
  simp only [String.toList_append, List.append_assoc, List.append_cancel_left_eq] at heq
  obtain ⟨htext, hrest⟩ := eq_of_join_append (fun c _ => legible_letter c) Letter.ne_quote
    hletters hletters' heq
  exact ⟨String.toList_inj.mp htext, hrest⟩

theorem not_mem_join_of_letters {value : List Char} {letters : List String}
    (h : List.Forall₂ Letter value letters) : '\n' ∉ (String.join letters).toList := by
  induction h with
  | nil => simp
  | cons hletter _ ih =>
    rw [String.join_cons, String.toList_append, List.mem_append, not_or]
    exact ⟨hletter.not_mem, ih⟩

/-- A quoted text stays on its line. -/
theorem Quotes.not_mem (h : Quotes text quoted) : '\n' ∉ quoted.toList := by
  obtain ⟨letters, hletters, rfl⟩ := h
  simpa using not_mem_join_of_letters hletters

theorem letter_outlineEscape (c : Char) :
    Letter c (String.ofList (Datum.outlineEscape c)) := by
  unfold Datum.outlineEscape
  split_ifs with hnull htab hnewline hreturn hquote hbackslash hhidden
  case pos | pos | pos | pos | pos | pos => subst_vars; exact .named (by decide)
  all_goals
    have hshort : c ∉ shortNames.map Prod.fst := by
      simp [shortNames, hnull, htab, hnewline, hreturn, hquote, hbackslash]
  case pos =>
    have hcoded : String.ofList (['\\', 'u', '\x7b'] ++ hexDigits c.toNat ++ ['\x7d']) =
        "\\u\x7b" ++ String.ofList (hexDigits c.toNat) ++ "\x7d" := by
      simp [← String.toList_inj]
    exact hcoded ▸ .coded hshort
  case neg => exact .verbatim hshort

/-- Outlines quote their texts. -/
theorem quotes_outlineString (text : String) : Quotes text (Datum.outlineString text) := by
  refine ⟨text.toList.map fun c => String.ofList (Datum.outlineEscape c), ?_, ?_⟩
  · rw [List.forall₂_map_right_iff, List.forall₂_same]
    exact fun c _ => letter_outlineEscape c
  · rw [← String.toList_inj]
    simp [Datum.outlineString, Text.quoted, String.toList_join, List.flatMap_map]

end Text

end Flick
