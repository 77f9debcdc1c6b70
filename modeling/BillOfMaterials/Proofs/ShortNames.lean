import BillOfMaterials.Proofs.Places
import BillOfMaterials.Proofs.Replacing

/-!
# Short names

The name of an archive is cut where its version begins, at the first hyphen that a digit follows.
What stands behind the cut has no influence on the names of the distribution, and a name in which no
version begins is not cut at all. From what is left, the prefix of the settings is taken out wherever
it stands, and not only at the beginning. Both come to the same unless the prefix stands once more
in what follows the first one; then the short name misses a part of its own.
-/
namespace BillOfMaterials.DistributionName

open Text

/-! ## The cut -/

/-- No version begins in the text: none of its hyphens has an ASCII digit behind it. -/
def Versionless (s : String) : Prop :=
  ∀ (front : String) (digit : Char) (rest : String), digit.isDigit = true →
    s ≠ front ++ "-" ++ String.singleton digit ++ rest

/-- An archive's name with a version. The version begins behind the base, and nowhere in it. -/
structure VersionedName where
  base : String
  digit : Char
  rest : String
  versionless : Versionless base
  isDigit : digit.isDigit = true

def VersionedName.text (name : VersionedName) : String :=
  name.base ++ "-" ++ String.singleton name.digit ++ name.rest

theorem unversioned_mark {d : Char} (hd : d.isDigit = true) (rest : List Char) :
    unversioned ('-' :: d :: rest) = [] := by
  rw [unversioned, if_pos hd]

theorem unversioned_cons {c : Char} {rest : List Char}
    (h : c = '-' → ∀ d ∈ rest.head?, d.isDigit = false) :
    unversioned (c :: rest) = c :: unversioned rest := by
  cases rest with
  | nil => simp [unversioned]
  | cons d rest =>
    by_cases hc : c = '-'
    · subst hc
      rw [unversioned, if_neg (by simp [h rfl d rfl])]
    · rw [unversioned]
      simpa using hc

theorem marked_or_not (c : Char) (rest : List Char) :
    (∃ d more, c = '-' ∧ rest = d :: more ∧ d.isDigit = true) ∨
      (c = '-' → ∀ d ∈ rest.head?, d.isDigit = false) := by
  by_cases hmark : ∃ d more, c = '-' ∧ rest = d :: more ∧ d.isDigit = true
  · exact .inl hmark
  · refine .inr fun hc d hd => ?_
    obtain ⟨more, rfl⟩ := List.head?_eq_some_iff.1 hd
    simpa using fun hdigit => hmark ⟨d, more, hc, rfl, hdigit⟩

theorem unversioned_append {front : List Char} (hfront : '-' ∉ front) (rest : List Char) :
    unversioned (front ++ rest) = front ++ unversioned rest := by
  induction front with
  | nil => rfl
  | cons c front ih =>
    rw [List.mem_cons, not_or] at hfront
    rw [List.cons_append, unversioned_cons fun hc => absurd hc.symm hfront.1, ih hfront.2,
      List.cons_append]

/-- A hyphen with a digit behind it and all that follows them have no influence. -/
theorem unversioned_append_mark (front : List Char) {d : Char} (hd : d.isDigit = true)
    (rest : List Char) : unversioned (front ++ '-' :: d :: rest) = unversioned front := by
  induction front with
  | nil => exact unversioned_mark hd rest
  | cons c front ih =>
    rcases marked_or_not c front with ⟨e, more, rfl, rfl, he⟩ | hhere
    · rw [List.cons_append, List.cons_append, unversioned_mark he, unversioned_mark he]
    · have hthere : c = '-' → ∀ e ∈ (front ++ '-' :: d :: rest).head?, e.isDigit = false := by
        cases front with
        | nil => simp
        | cons e more => exact hhere
      rw [List.cons_append, unversioned_cons hthere, unversioned_cons hhere, ih]

theorem unversioned_cases (cs : List Char) :
    unversioned cs = cs ∨
      ∃ d rest, d.isDigit = true ∧ cs = unversioned cs ++ '-' :: d :: rest := by
  induction cs with
  | nil => exact .inl rfl
  | cons c cs ih =>
    rcases marked_or_not c cs with ⟨d, more, rfl, rfl, hd⟩ | hhere
    · rw [unversioned_mark hd]
      exact .inr ⟨d, more, hd, rfl⟩
    · rw [unversioned_cons hhere]
      rcases ih with hwhole | ⟨d, more, hd, hcut⟩
      · exact .inl (congrArg (c :: ·) hwhole)
      · exact .inr ⟨d, more, hd, congrArg (c :: ·) hcut⟩

theorem eq_marked_iff {s front rest : String} {d : Char} :
    s = front ++ "-" ++ String.singleton d ++ rest ↔
      s.toList = front.toList ++ '-' :: d :: rest.toList := by
  rw [← String.toList_inj]
  simp

theorem versionless_iff {s : String} : Versionless s ↔ unversioned s.toList = s.toList := by
  constructor
  · intro h
    rcases unversioned_cases s.toList with hwhole | ⟨d, rest, hd, hcut⟩
    · exact hwhole
    · refine absurd ?_ (h (String.ofList (unversioned s.toList)) d (String.ofList rest) hd)
      rw [eq_marked_iff, String.toList_ofList, String.toList_ofList]
      exact hcut
  · intro h front d rest hd hs
    rw [eq_marked_iff] at hs
    have hle := (unversioned_sublist front.toList).length_le
    rw [← unversioned_append_mark front.toList hd rest.toList, ← hs, h, hs] at hle
    simp only [List.length_append, List.length_cons] at hle
    omega

instance (s : String) : Decidable (Versionless s) := decidable_of_iff _ versionless_iff.symm

theorem VersionedName.toList_text (name : VersionedName) :
    name.text.toList = name.base.toList ++ '-' :: name.digit :: name.rest.toList :=
  eq_marked_iff.1 rfl

theorem VersionedName.unversioned_text (name : VersionedName) :
    unversioned name.text.toList = name.base.toList := by
  rw [name.toList_text, unversioned_append_mark _ name.isDigit]
  exact versionless_iff.1 name.versionless

/-- A name can be cut in one way only. -/
theorem VersionedName.text_injective : Function.Injective VersionedName.text := by
  intro name other h
  have hbase : name.base = other.base := by
    rw [← String.toList_inj, ← name.unversioned_text, h, other.unversioned_text]
  have hchars := congrArg String.toList h
  rw [name.toList_text, other.toList_text, hbase, List.append_cancel_left_eq] at hchars
  obtain ⟨base, digit, rest, _, _⟩ := name
  obtain ⟨base', digit', rest', _, _⟩ := other
  injection hchars with _ hchars
  injection hchars with hdigit hrest
  cases hbase
  cases hdigit
  cases String.toList_inj.1 hrest
  rfl

/-- It can be cut exactly if a version begins in it. -/
theorem exists_versionedName_iff {archive : String} :
    (∃ name : VersionedName, name.text = archive) ↔ ¬Versionless archive := by
  constructor
  · rintro ⟨name, rfl⟩ hnone
    exact hnone name.base name.digit name.rest name.isDigit rfl
  · intro hsome
    rcases unversioned_cases archive.toList with hwhole | ⟨d, rest, hd, hcut⟩
    · exact absurd (versionless_iff.2 hwhole) hsome
    · have hbase : Versionless (String.ofList (unversioned archive.toList)) := by
        rw [versionless_iff, String.toList_ofList]
        conv_rhs => rw [hcut, unversioned_append_mark _ hd]
      refine ⟨⟨_, d, String.ofList rest, hbase, hd⟩, ?_⟩
      rw [← String.toList_inj, VersionedName.toList_text, String.toList_ofList,
        String.toList_ofList]
      exact hcut.symm

/-! ## Names from a base -/

/-- The names of a distribution whose archive is called `base`, apart from the version. -/
def ofBase (base namePrefix : String) : DistributionName :=
  let short := Text.replace base namePrefix ""
  ⟨short, String.ofList (displayName short.toList)⟩

theorem ofArchive_eq_ofBase {archive base namePrefix : String}
    (h : unversioned archive.toList = base.toList) :
    ofArchive archive namePrefix = ofBase base namePrefix := by
  simp [ofArchive, ofBase, shortName, Text.replace, h]

/-- The names of a distribution depend on what stands before the version, which ends in one place
only; the name of an archive in which no version begins is taken whole. -/
theorem ofArchive_by_base (namePrefix : String) :
    (∀ name : VersionedName, ofArchive name.text namePrefix = ofBase name.base namePrefix) ∧
      Function.Injective VersionedName.text ∧
      ∀ archive, ((∃ name : VersionedName, name.text = archive) ↔ ¬Versionless archive) ∧
        (Versionless archive → ofArchive archive namePrefix = ofBase archive namePrefix) := by
  refine ⟨fun name => ?_, VersionedName.text_injective, fun archive => ?_⟩
  · exact ofArchive_eq_ofBase name.unversioned_text
  · exact ⟨exists_versionedName_iff, fun h => ofArchive_eq_ofBase (versionless_iff.1 h)⟩

/-- A hyphen before the version belongs to the base. -/
def dashed : VersionedName where
  base := "apache-größe-"
  digit := '8'
  rest := ".0.6.zip"
  versionless := by decide +kernel
  isDigit := rfl

/-- No version begins with a digit that is not ASCII. -/
theorem dashed_by_base :
    ofArchive "apache-größe--8.0.6.zip" "apache-" = ⟨"größe-", "Größe "⟩ ∧
      ofArchive "apache-tomee-٣.zip" "apache-" = ⟨"tomee-٣.zip", "TomEE ٣.zip"⟩ := by
  obtain ⟨hversioned, -, hwhole⟩ := ofArchive_by_base "apache-"
  have htext : dashed.text = "apache-größe--8.0.6.zip" := by decide +kernel
  have hnone : Versionless "apache-tomee-٣.zip" := by decide +kernel
  constructor
  · rw [← htext, hversioned]
    decide +kernel
  · rw [(hwhole _).2 hnone]
    decide +kernel

/-! ## The prefix -/

/-- What stands in the name of an archive before the version, or all of it. -/
inductive HasBase (archive : String) : String → Prop
  | versioned (name : VersionedName) : name.text = archive → HasBase archive name.base
  | whole : Versionless archive → HasBase archive archive

/-- What is left of a text without `start` at its beginning, or all of it if it does not begin so. -/
inductive Stripped (start s : String) : String → Prop
  | begins {rest : String} : s = start ++ rest → Stripped start s rest
  | other : (¬∃ rest, s = start ++ rest) → Stripped start s s

theorem exists_hasBase (archive : String) : ∃ base, HasBase archive base := by
  by_cases h : Versionless archive
  · exact ⟨archive, .whole h⟩
  · obtain ⟨name, htext⟩ := exists_versionedName_iff.2 h
    exact ⟨name.base, .versioned name htext⟩

theorem exists_stripped (start s : String) : ∃ left, Stripped start s left := by
  by_cases h : ∃ rest, s = start ++ rest
  · obtain ⟨rest, hrest⟩ := h
    exact ⟨rest, .begins hrest⟩
  · exact ⟨s, .other h⟩

theorem HasBase.toList_short {archive base : String} (h : HasBase archive base)
    (namePrefix : String) :
    (ofArchive archive namePrefix).short.toList = replaceAll namePrefix.toList [] base.toList := by
  have hcut : unversioned archive.toList = base.toList := by
    cases h with
    | versioned name htext => exact htext ▸ name.unversioned_text
    | whole hnone => exact versionless_iff.1 hnone
  simp [ofArchive, shortName, hcut]

/-- Taking the prefix out everywhere begins with taking it off at the beginning. -/
theorem Stripped.replaceAll_eq {start s left : String} (h : Stripped start s left)
    (hstart : start ≠ "") :
    replaceAll start.toList [] s.toList = replaceAll start.toList [] left.toList := by
  cases h with
  | begins hs =>
    have hne : start.toList ≠ [] := by simpa using hstart
    rw [hs, String.toList_append, replaceAll_marker_append hne, List.nil_append]
  | other _ => rfl

/-- The short name is the base with every occurrence of the prefix taken out, in one pass from left
to right. It is the base with the prefix taken off at the beginning exactly if the prefix does not
stand anywhere in what that leaves. -/
theorem short_eq_stripped_iff (archive : String) {namePrefix : String} (hgiven : namePrefix ≠ "") :
    (∃ base stripped, HasBase archive base ∧ Stripped namePrefix base stripped) ∧
      ∀ base stripped, HasBase archive base → Stripped namePrefix base stripped →
        Replaces namePrefix.toList [] base.toList (ofArchive archive namePrefix).short.toList ∧
          ((ofArchive archive namePrefix).short = stripped ↔
            ¬namePrefix.toList <:+: stripped.toList) := by
  have hne : namePrefix.toList ≠ [] := by simpa using hgiven
  constructor
  · obtain ⟨base, hbase⟩ := exists_hasBase archive
    obtain ⟨stripped, hstripped⟩ := exists_stripped namePrefix base
    exact ⟨base, stripped, hbase, hstripped⟩
  · intro base stripped hbase hstripped
    have hshort := hbase.toList_short namePrefix
    constructor
    · rw [hshort]
      exact replaces_replaceAll hne [] base.toList
    · rw [← String.toList_inj, hshort, hstripped.replaceAll_eq hgiven]
      exact replaceAll_nil_eq_self_iff hne

theorem plus_stripped :
    HasBase "apache-tomee-plus-8.0.6.zip" "apache-tomee-plus" ∧
      Stripped "apache-" "apache-tomee-plus" "tomee-plus" ∧
      (ofArchive "apache-tomee-plus-8.0.6.zip" "apache-").short = "tomee-plus" := by
  have hbase : HasBase "apache-tomee-plus-8.0.6.zip" "apache-tomee-plus" :=
    .versioned ⟨"apache-tomee-plus", '8', ".0.6.zip", by decide +kernel, rfl⟩ (by decide +kernel)
  have hstripped : Stripped "apache-" "apache-tomee-plus" "tomee-plus" := .begins (by decide)
  have hgiven : "apache-" ≠ "" := by decide
  obtain ⟨-, hnames⟩ := short_eq_stripped_iff "apache-tomee-plus-8.0.6.zip" hgiven
  exact ⟨hbase, hstripped, (hnames _ _ hbase hstripped).2.2 (by decide)⟩

/-- The prefix `apache-` stands once more in the name of this distribution, which thereby gets the
names of another one. -/
theorem inner_prefix_taken_out :
    let archive := "apache-tomee-apache-plus-8.0.6.zip"
    HasBase archive "apache-tomee-apache-plus" ∧
      Stripped "apache-" "apache-tomee-apache-plus" "tomee-apache-plus" ∧
      (ofArchive archive "apache-").short ≠ "tomee-apache-plus" ∧
      ofArchive archive "apache-" = ofArchive "apache-tomee-plus-8.0.6.zip" "apache-" := by
  refine ⟨?_, .begins (by decide), by decide +kernel, by decide +kernel⟩
  exact .versioned ⟨"apache-tomee-apache-plus", '8', ".0.6.zip", by decide +kernel, rfl⟩
    (by decide +kernel)

end BillOfMaterials.DistributionName
