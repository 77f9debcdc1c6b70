import BillOfMaterials.Proofs.Substitution

/-!
# Display names

A display name writes the words of the short name with blanks for its hyphens. Within a word, letters
are put in upper case and nothing else is changed, so the characters stay in their places: the first
letter, then every `ee`, then every `profile`. A later step does not bring back what an earlier one
has replaced, since a small letter of the result was a small letter before. The only exception to the
places is a first letter beyond ASCII, whose upper case may have several characters.
-/
namespace BillOfMaterials

namespace Text

/-! ## Small letters stay where they were -/

theorem isLower_iff (c : Char) : c.isLower = true ↔ 'a'.val ≤ c.val ∧ c.val ≤ 'z'.val := by
  have h : c.isLower = (decide ('a'.val ≤ c.val) && decide (c.val ≤ 'z'.val)) := rfl
  rw [h, Bool.and_eq_true, decide_eq_true_iff, decide_eq_true_iff]

theorem toUpper_of_not_isLower {c : Char} (h : c.isLower = false) : c.toUpper = c :=
  dif_neg fun hletter => absurd ((isLower_iff c).2 hletter) (Bool.eq_false_iff.1 h)

theorem isLower_toUpper (c : Char) : c.toUpper.isLower = false := by
  cases h : c.isLower with
  | false => rw [toUpper_of_not_isLower h, h]
  | true =>
    have hall : ∀ n < 0x80, (Char.ofNat n).toUpper.isLower = false := by decide +kernel
    have hsmall : c.val ≤ 'z'.val := ((isLower_iff c).1 h).2
    rw [← Char.ofNat_toNat c]
    exact hall _ (Nat.lt_of_le_of_lt (UInt32.le_iff_toNat_le.1 hsmall) (by decide))

theorem toUpper_toUpper (c : Char) : c.toUpper.toUpper = c.toUpper :=
  toUpper_of_not_isLower (isLower_toUpper c)

def Recased (c d : Char) : Prop := d = c ∨ d = c.toUpper

theorem Recased.trans {a b c : Char} (hab : Recased a b) (hbc : Recased b c) : Recased a c := by
  rcases hab with rfl | rfl
  · exact hbc
  · rcases hbc with rfl | rfl
    · exact .inr rfl
    · exact .inr (toUpper_toUpper a)

theorem Recased.eq_of_isLower {c d : Char} (h : Recased c d) (hd : d.isLower = true) : c = d := by
  rcases h with rfl | rfl
  · rfl
  · rw [isLower_toUpper] at hd
    cases hd

theorem forall₂_recased_trans {r s t : List Char} (hrs : List.Forall₂ Recased r s)
    (hst : List.Forall₂ Recased s t) : List.Forall₂ Recased r t := by
  induction hrs generalizing t with
  | nil => exact hst
  | cons hab _ ih =>
    cases hst with
    | cons hbc hst => exact .cons (hab.trans hbc) (ih hst)

theorem prefix_of_recased {word s t : List Char} (hword : ∀ c ∈ word, c.isLower = true)
    (h : List.Forall₂ Recased s t) (hin : word <+: t) : word <+: s := by
  induction h generalizing word with
  | nil => exact hin
  | cons hcd _ ih =>
    cases word with
    | nil => exact List.nil_prefix
    | cons d word =>
      obtain ⟨rfl, htail⟩ := List.cons_prefix_cons.1 hin
      obtain ⟨hd, hword⟩ := List.forall_mem_cons.1 hword
      exact List.cons_prefix_cons.2 ⟨(hcd.eq_of_isLower hd).symm, ih hword htail⟩

/-- A word of small letters that stands in the recased text stood in the text. -/
theorem infix_of_recased {word s t : List Char} (hword : ∀ c ∈ word, c.isLower = true)
    (h : List.Forall₂ Recased s t) (hin : word <:+: t) : word <:+: s := by
  induction h with
  | nil => exact hin
  | cons hcd hst ih =>
    rcases List.infix_cons_iff.1 hin with hhere | hlater
    · exact (prefix_of_recased hword (.cons hcd hst) hhere).isInfix
    · exact List.infix_cons_iff.2 (.inr (ih hlater))

/-! ## Joined pieces -/

theorem infix_of_append_stop {word text rest : List Char} {stop : Char} (hword : stop ∉ word)
    (h : word <:+: text ++ stop :: rest) : word <:+: text ∨ word <:+: rest := by
  induction text with
  | nil =>
    rcases List.infix_cons_iff.1 h with hhere | hlater
    · have hnil : word <+: [] := prefix_of_stop hword (by simp) hhere
      exact .inl hnil.isInfix
    · exact .inr hlater
  | cons c text ih =>
    rcases List.infix_cons_iff.1 h with hhere | hlater
    · have hin : word <+: c :: text := prefix_of_stop hword (by simp) hhere
      exact .inl hin.isInfix
    · exact (ih hlater).imp_left fun hin => List.infix_cons_iff.2 (.inr hin)

/-- What avoids the separator and stands in the whole stands in one of the pieces. -/
theorem infix_of_joinWith {word : List Char} {sep : Char} {pieces : List (List Char)}
    (hne : word ≠ []) (hsep : sep ∉ word) (h : word <:+: joinWith [sep] pieces) :
    ∃ piece ∈ pieces, word <:+: piece := by
  induction pieces with
  | nil => exact absurd (List.infix_nil.1 h) hne
  | cons piece pieces ih =>
    cases pieces with
    | nil => exact ⟨piece, List.mem_cons_self, h⟩
    | cons next pieces =>
      rw [joinWith_cons_cons, List.singleton_append] at h
      rcases infix_of_append_stop hsep h with hhere | hlater
      · exact ⟨piece, List.mem_cons_self, hhere⟩
      · obtain ⟨other, hmem, hin⟩ := ih hlater
        exact ⟨other, List.mem_cons_of_mem piece hmem, hin⟩

theorem upperCase_ascii {c : Char} (h : c.toNat < 0x80) : upperCase c = [c.toUpper] := by
  have hall : ∀ n < 0x80, upperCase (Char.ofNat n) = [(Char.ofNat n).toUpper] := by decide +kernel
  simpa using hall c.toNat h

end Text

namespace DistributionName

open Text

/-! ## Positions -/

/-- A segment of the text begins at a place: the text begins there, or a hyphen stands before it. -/
def OpensSegment (s : List Char) : Nat → Prop
  | 0 => True
  | i + 1 => s[i]? = some '-'

/-- `display` is `short` with blanks for its hyphens and some of its letters in upper case, the first
letter of each segment among them. -/
structure Presents (short display : List Char) : Prop where
  length_eq : display.length = short.length
  blank : ∀ i : Nat, short[i]? = some '-' → display[i]? = some ' '
  recased : ∀ (i : Nat) (c : Char), short[i]? = some c → c ≠ '-' →
    display[i]? = some c ∨ display[i]? = some c.toUpper
  opening : ∀ (i : Nat) (c : Char), OpensSegment short i → short[i]? = some c → c ≠ '-' →
    display[i]? = some c.toUpper

/-- The same, character by character; `opens` says whether a segment begins here. -/
inductive Spells : Bool → List Char → List Char → Prop
  | nil {opens : Bool} : Spells opens [] []
  | hyphen {opens : Bool} {s t : List Char} : Spells true s t → Spells opens ('-' :: s) (' ' :: t)
  | opening {c : Char} {s t : List Char} :
      c ≠ '-' → Spells false s t → Spells true (c :: s) (c.toUpper :: t)
  | inner {c d : Char} {s t : List Char} :
      c ≠ '-' → Recased c d → Spells false s t → Spells false (c :: s) (d :: t)

theorem Spells.length_eq {opens : Bool} {s t : List Char} (h : Spells opens s t) :
    t.length = s.length := by
  induction h with
  | nil => rfl
  | hyphen _ ih | opening _ _ ih | inner _ _ _ ih => simp [ih]

theorem Spells.character {opens : Bool} {s t : List Char} (h : Spells opens s t) (i : Nat)
    {c : Char} (hi : s[i]? = some c) :
    ∃ d, t[i]? = some d ∧ (c = '-' ∧ d = ' ' ∨ c ≠ '-' ∧ Recased c d) := by
  induction h generalizing i with
  | nil => cases hi
  | hyphen _ ih =>
    cases i with
    | zero =>
      cases hi
      exact ⟨' ', rfl, .inl ⟨rfl, rfl⟩⟩
    | succ i => exact ih i hi
  | opening hc _ ih =>
    cases i with
    | zero =>
      cases hi
      exact ⟨_, rfl, .inr ⟨hc, .inr rfl⟩⟩
    | succ i => exact ih i hi
  | inner hc hcd _ ih =>
    cases i with
    | zero =>
      cases hi
      exact ⟨_, rfl, .inr ⟨hc, hcd⟩⟩
    | succ i => exact ih i hi

theorem Spells.capital {opens : Bool} {s t : List Char} (h : Spells opens s t) (i : Nat) {c : Char}
    (hopens : i = 0 → opens = true) (hbegins : OpensSegment s i) (hi : s[i]? = some c)
    (hc : c ≠ '-') : t[i]? = some c.toUpper := by
  induction h generalizing i with
  | nil => cases hi
  | hyphen _ ih =>
    cases i with
    | zero => exact absurd (Option.some.inj hi).symm hc
    | succ i =>
      cases i with
      | zero => exact ih 0 (fun _ => rfl) trivial hi
      | succ i => exact ih (i + 1) (by simp) hbegins hi
  | opening hd _ ih =>
    cases i with
    | zero =>
      cases hi
      rfl
    | succ i =>
      cases i with
      | zero => exact absurd (Option.some.inj hbegins) hd
      | succ i => exact ih (i + 1) (by simp) hbegins hi
  | inner hd _ _ ih =>
    cases i with
    | zero => cases hopens rfl
    | succ i =>
      cases i with
      | zero => exact absurd (Option.some.inj hbegins) hd
      | succ i => exact ih (i + 1) (by simp) hbegins hi

theorem Spells.presents {s t : List Char} (h : Spells true s t) : Presents s t where
  length_eq := h.length_eq
  blank i hi := by
    obtain ⟨d, hd, ⟨-, rfl⟩ | ⟨hne, -⟩⟩ := h.character i hi
    · exact hd
    · exact absurd rfl hne
  recased i c hi hc := by
    obtain ⟨d, hd, ⟨hhyphen, -⟩ | ⟨-, rfl | rfl⟩⟩ := h.character i hi
    · exact absurd hhyphen hc
    · exact .inl hd
    · exact .inr hd
  opening i _ := h.capital i fun _ => rfl

/-! ## Words -/

theorem recased_ee : List.Forall₂ Recased ['e', 'e'] ['E', 'E'] := by
  simp [Recased]

theorem recased_profile :
    List.Forall₂ Recased ['p', 'r', 'o', 'f', 'i', 'l', 'e'] ['P', 'r', 'o', 'f', 'i', 'l', 'e'] := by
  simp [Recased]

theorem not_infix_displayWord (word : List Char) :
    ¬['e', 'e'] <:+: displayWord word ∧
      ¬['p', 'r', 'o', 'f', 'i', 'l', 'e'] <:+: displayWord word := by
  obtain ⟨mid, hee, hprofile⟩ := displayWord_steps word
  constructor
  · intro hin
    have hrecased := hprofile.forall₂ (fun _ => .inl rfl) recased_profile
    have hbefore : ['e', 'e'] <:+: mid := infix_of_recased (by simp) hrecased hin
    exact hee.not_infix (by simp) (by simp) (by simp) hbefore
  · exact hprofile.not_infix (by simp) (by simp) (by simp)

inductive WordSpells : List Char → List Char → Prop
  | nil : WordSpells [] []
  | cons {c : Char} {rest out : List Char} :
      List.Forall₂ Recased rest out → WordSpells (c :: rest) (c.toUpper :: out)

theorem wordSpells_displayWord {word : List Char} (h : ∀ c ∈ word.head?, c.toNat < 0x80) :
    WordSpells word (displayWord word) := by
  cases word with
  | nil => exact .nil
  | cons c rest =>
    have hne {d : Char} (hd : d.isLower = true) : c.toUpper ≠ d := by
      rintro rfl
      rw [isLower_toUpper] at hd
      cases hd
    obtain ⟨mid, hee, hprofile⟩ := displayWord_steps (c :: rest)
    rw [capitalize, upperCase_ascii (h c rfl), List.singleton_append] at hee
    obtain ⟨between, rfl, hrest⟩ := hee.head_kept (hne rfl)
    obtain ⟨out, hout, hbetween⟩ := hprofile.head_kept (hne rfl)
    rw [hout]
    have hfirst := hrest.forall₂ (fun _ => .inl rfl) recased_ee
    have hsecond := hbetween.forall₂ (fun _ => .inl rfl) recased_profile
    exact .cons (forall₂_recased_trans hfirst hsecond)

theorem spells_inner {word out s t : List Char} (h : List.Forall₂ Recased word out)
    (hfree : '-' ∉ word) (hrest : Spells false s t) : Spells false (word ++ s) (out ++ t) := by
  induction h with
  | nil => exact hrest
  | cons hcd _ ih =>
    rw [List.mem_cons, not_or] at hfree
    exact .inner (Ne.symm hfree.1) hcd (ih hfree.2)

theorem WordSpells.append {word out s t : List Char} (h : WordSpells word out) (hfree : '-' ∉ word)
    (hrest : ∀ opens, Spells opens s t) : Spells true (word ++ s) (out ++ t) := by
  cases h with
  | nil => exact hrest true
  | cons h =>
    rw [List.mem_cons, not_or] at hfree
    exact .opening (Ne.symm hfree.1) (spells_inner h hfree.2 (hrest false))

theorem spells_joinWith {words : List (List Char)} (hfree : ∀ word ∈ words, '-' ∉ word)
    (h : ∀ word ∈ words, WordSpells word (displayWord word)) :
    Spells true (joinWith ['-'] words) (joinWith [' '] (words.map displayWord)) := by
  induction words with
  | nil => exact .nil
  | cons word words ih =>
    obtain ⟨hword, hwords⟩ := List.forall_mem_cons.1 h
    obtain ⟨hclear, hfree⟩ := List.forall_mem_cons.1 hfree
    cases words with
    | nil =>
      have hend : Spells true (word ++ []) (displayWord word ++ []) :=
        hword.append hclear fun _ => .nil
      rwa [List.append_nil, List.append_nil] at hend
    | cons next words =>
      rw [List.map_cons, List.map_cons, joinWith_cons_cons, joinWith_cons_cons]
      exact hword.append hclear fun _ => .hyphen (ih hfree hwords)

/-- The first character of a segment stands where a segment begins. -/
theorem opensSegment_of_splitOn {s first : List Char} {others : List (List Char)}
    (h : splitOn '-' s = first :: others) :
    (∀ c ∈ first.head?, s[0]? = some c) ∧
      ∀ word ∈ others, ∀ c ∈ word.head?, ∃ i : Nat, s[i]? = some '-' ∧ s[i + 1]? = some c := by
  induction s generalizing first others with
  | nil =>
    cases h
    exact ⟨nofun, nofun⟩
  | cons d rest ih =>
    have hlater {pieces : List (List Char)}
        (hpieces : ∀ word ∈ pieces, ∀ c ∈ word.head?,
          ∃ i : Nat, rest[i]? = some '-' ∧ rest[i + 1]? = some c) :
        ∀ word ∈ pieces, ∀ c ∈ word.head?,
          ∃ i : Nat, (d :: rest)[i]? = some '-' ∧ (d :: rest)[i + 1]? = some c := by
      intro word hword c hc
      obtain ⟨i, hi⟩ := hpieces word hword c hc
      exact ⟨i + 1, hi⟩
    by_cases hd : d = '-'
    · subst hd
      rw [splitOn_cons_sep] at h
      cases h
      refine ⟨nofun, ?_⟩
      cases hrest : splitOn '-' rest with
      | nil => exact nofun
      | cons piece pieces =>
        obtain ⟨hfirst, hothers⟩ := ih hrest
        rw [List.forall_mem_cons]
        exact ⟨fun c hc => ⟨0, rfl, hfirst c hc⟩, hlater hothers⟩
    · obtain ⟨piece, pieces, hrest, hs⟩ := splitOn_cons hd rest
      rw [hs] at h
      cases h
      refine ⟨fun c hc => ?_, hlater (ih hrest).2⟩
      cases hc
      rfl

theorem presents_displayName {short : List Char}
    (h : ∀ (i : Nat) (c : Char), OpensSegment short i → short[i]? = some c → c.toNat < 0x80) :
    Presents short (displayName short) := by
  have hascii : ∀ word ∈ splitOn '-' short, ∀ c ∈ word.head?, c.toNat < 0x80 := by
    cases hwords : splitOn '-' short with
    | nil => exact nofun
    | cons first others =>
      obtain ⟨hfirst, hothers⟩ := opensSegment_of_splitOn hwords
      rw [List.forall_mem_cons]
      refine ⟨fun c hc => h 0 c trivial (hfirst c hc), fun word hword c hc => ?_⟩
      obtain ⟨i, hhyphen, hi⟩ := hothers word hword c hc
      exact h (i + 1) c hhyphen hi
  have hfree : ∀ word ∈ splitOn '-' short, '-' ∉ word := fun _ => not_mem_of_mem_splitOn
  have hspells := spells_joinWith hfree fun word hword =>
    wordSpells_displayWord (hascii word hword)
  rw [joinWith_splitOn] at hspells
  exact hspells.presents

/-- A display name holds no hyphen, no `ee` and no `profile`. If no segment of the short name begins
beyond ASCII, it presents the short name, character by character. -/
theorem display_of_short (archive namePrefix : String) :
    let name := ofArchive archive namePrefix
    '-' ∉ name.display.toList ∧ ¬"ee".toList <:+: name.display.toList ∧
      ¬"profile".toList <:+: name.display.toList ∧
      ((∀ (i : Nat) (c : Char), OpensSegment name.short.toList i →
          name.short.toList[i]? = some c → c.toNat < 0x80) →
        Presents name.short.toList name.display.toList) := by
  intro name
  have hdisplay : name.display.toList = displayName name.short.toList := by
    simp [name, ofArchive]
  rw [hdisplay]
  have hnone {word : List Char} (hne : word ≠ []) (hblank : ' ' ∉ word)
      (hwords : ∀ piece, ¬word <:+: displayWord piece) :
      ¬word <:+: displayName name.short.toList := by
    intro hin
    obtain ⟨piece, hpiece, hin⟩ := infix_of_joinWith hne hblank hin
    obtain ⟨segment, -, rfl⟩ := List.mem_map.1 hpiece
    exact hwords segment hin
  refine ⟨Bom.hyphen_not_mem_displayName _, ?_, ?_, presents_displayName⟩
  · exact hnone (by decide) (by decide) fun piece => (not_infix_displayWord piece).1
  · exact hnone (by decide) (by decide) fun piece => (not_infix_displayWord piece).2

/-- The three steps meet in these words, and each of them is taken once. -/
theorem overlapping_presented :
    (ofArchive "apache-eee-profilee-8.0.6.zip" "apache-").display = "EEE ProfilEE" ∧
      Presents "eee-profilee".toList "EEE ProfilEE".toList := by
  have hname : ofArchive "apache-eee-profilee-8.0.6.zip" "apache-" =
      ⟨"eee-profilee", "EEE ProfilEE"⟩ := by decide +kernel
  obtain ⟨-, -, -, hpresents⟩ := display_of_short "apache-eee-profilee-8.0.6.zip" "apache-"
  rw [hname] at hpresents ⊢
  refine ⟨rfl, hpresents fun i c _ hi => ?_⟩
  have hascii : ∀ c ∈ "eee-profilee".toList, c.toNat < 0x80 := by simp
  exact hascii c (List.mem_of_getElem? hi)

end DistributionName
end BillOfMaterials
