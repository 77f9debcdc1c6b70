import BillOfMaterials.Binary
import BillOfMaterials.Proofs.Origins

/-!
# What stands in for a packaged binary

A name that the repository does not hold may be answered by another file, the least one that begins
with the last four characters of the name. For a packaged binary with an extension of three
characters these are the dot and the extension, even where the rest of its name is no text. So the
only files that ever stand in for it have names that begin with the dot and the extension, and where
the repository has no such file, each binary is mapped to a file of its own name or to none.
-/
namespace BillOfMaterials

namespace Text

variable {b : UInt8} {p : Pending} {rest : Bytes}

/-! ## Reading on from a single byte -/

/-- A character that takes more than one byte goes on with bytes from 80 upwards. -/
theorem low_of_opening (h : opening b = .first p) : 0x80 ≤ p.low := by
  grind [opening]

theorem opening_single (hb : b < 0x80) : opening b = .single (Char.ofNat b.toNat) :=
  if_pos hb

/-- A byte that does not continue the character is read as if it stood at the beginning of one. -/
theorem readFrom_unfit (h : ¬(p.low ≤ b ∧ b ≤ p.high)) :
    readFrom (some p) (b :: rest) = replacement :: readFrom none (b :: rest) := by
  conv_lhs => rw [readFrom, if_neg h]
  rfl

/-- A byte below 80 is a character by itself, whatever stands before it: it ends every character
that has been begun, and what follows it is read anew. -/
theorem readFrom_append_single (hb : b < 0x80) (front : Bytes) (state : Option Pending)
    (hstate : ∀ p ∈ state, 0x80 ≤ p.low) :
    readFrom state (front ++ b :: rest) =
      readFrom state front ++ Char.ofNat b.toNat :: readFrom none rest := by
  -- on what stands before: in every state that is reached, the byte is below the ones asked for
  have hstart : ∀ p ∈ (none : Option Pending), 0x80 ≤ p.low := by simp
  induction front generalizing state with
  | nil =>
    have hnone : readFrom none (b :: rest) = Char.ofNat b.toNat :: readFrom none rest := by
      rw [readFrom, opening_single hb]
    cases state with
    | none => exact hnone
    | some p =>
      have hunfit : ¬(p.low ≤ b ∧ b ≤ p.high) := fun h =>
        absurd (UInt8.lt_of_lt_of_le hb (hstate p rfl)) (UInt8.not_lt.2 h.1)
      rw [List.nil_append, readFrom_unfit hunfit, hnone]
      rfl
  | cons d front ih =>
    have hnone : readFrom none (d :: front ++ b :: rest) =
        readFrom none (d :: front) ++ Char.ofNat b.toNat :: readFrom none rest := by
      rw [List.cons_append, readFrom, readFrom]
      cases hd : opening d with
      | single c => exact congrArg (c :: ·) (ih none hstart)
      | first q =>
        refine ih (some q) fun p hp => ?_
        cases hp
        exact low_of_opening hd
      | illFormed => exact congrArg (replacement :: ·) (ih none hstart)
    cases state with
    | none => exact hnone
    | some p =>
      by_cases hfit : p.low ≤ d ∧ d ≤ p.high
      · rw [List.cons_append, readFrom, if_pos hfit, readFrom, if_pos hfit]
        dsimp only
        split
        · rw [ih none hstart, List.cons_append]
        · refine ih _ fun q hq => ?_
          rw [← Option.some.inj hq]
          exact UInt8.le_refl _
      · rw [List.cons_append, readFrom_unfit hfit, readFrom_unfit hfit, ← List.cons_append, hnone,
          List.cons_append]

/-- A dot and a text at the end of a name stay as they are, whatever the rest of the name is. -/
theorem ofBytes_stem (stem : Bytes) (s : String) :
    ofBytes (stem ++ Path.dot :: bytes s) = ofBytes stem ++ ("." ++ s) := by
  have hread : readFrom none (bytes s) = s.toList := by
    have htext := congrArg String.toList (ofBytes_bytes s)
    rwa [ofBytes, String.toList_ofList] at htext
  rw [ofBytes, readFrom_append_single (by decide) stem none (by simp), hread, String.ofList_append,
    ofBytes]
  congr 1
  exact String.ext (by simp [Path.dot])

end Text

/-- The name of a packaged binary ends in a dot and the extension. -/
theorem Binary.extended_of_mem_names {extension name : String} {files : List Path}
    (h : name ∈ names extension files) : ∃ front, name = front ++ ("." ++ extension) := by
  obtain ⟨file, hfile, hname⟩ := List.mem_filterMap.1 h
  obtain ⟨f, hf, rfl⟩ := Option.map_eq_some_iff.1 hname
  have hextension := (List.mem_filter.1 ((List.mergeSort_perm _ _).mem_iff.1 hfile)).2
  rw [beq_iff_eq, Path.extension?, hf, Option.bind_some,
    Path.extensionOf?_eq_some_iff] at hextension
  obtain ⟨-, stem, -, rfl⟩ := hextension
  exact ⟨Text.ofBytes stem, Text.ofBytes_stem stem extension⟩

namespace ArtifactIndex

variable {t : FileTree} {root path : Path} {index : ArtifactIndex} {extension name : String}
  {f : Bytes} {files : List Path}

/-! ## Paths are held under their own names -/

/-- Each path is held under its file name. -/
def HoldsOwn (index : ArtifactIndex) : Prop :=
  ∀ (f : Bytes) (path : Path), index.files[f]? = some path → path.fileName? = some f

theorem holdsOwn_empty (root : Path) : (empty root).HoldsOwn := by
  intro f path h
  have hempty : (empty root).files[f]? = none := Std.TreeMap.getElem?_emptyc
  rw [hempty] at h
  cases h

theorem HoldsOwn.record (h : index.HoldsOwn) (path : Path) : (index.record path).HoldsOwn := by
  intro f held hheld
  rw [files_record] at hheld
  split at hheld
  · cases hheld
    assumption
  · exact h f held hheld

theorem HoldsOwn.entered (h : index.HoldsOwn) (extension : String) (names : List Bytes) :
    (entered extension index names).HoldsOwn := by
  unfold ArtifactIndex.entered
  split
  · exact h.record _
  · exact h

theorem holdsOwn_survey (h : (survey t root extension).outcome = .ok index) : index.HoldsOwn := by
  obtain ⟨directory, -, -, rfl⟩ := survey_ok h
  have hfold (paths : List (List Bytes)) (index : ArtifactIndex) (hindex : index.HoldsOwn) :
      (paths.foldl (entered extension) index).HoldsOwn := by
    induction paths generalizing index with
    | nil => exact hindex
    | cons names rest ih => exact ih _ (hindex.entered extension names)
  exact hfold _ _ (holdsOwn_empty root)

/-! ## What is found for a packaged binary -/

/-- For a packaged binary with an extension of three characters, the tail that is looked for is the
dot and the extension. -/
theorem StandsFor.same_or_begins {recorded : Bytes → Prop} (hlength : extension.length = 3)
    (hname : name ∈ Binary.names extension files) (h : StandsFor recorded name f) :
    f = Text.bytes name ∨ Text.bytes ("." ++ extension) <+: f := by
  cases h with
  | same _ => exact .inl rfl
  | @least front tail f habsent hsplit htail hrecorded hbegins hleast =>
    obtain ⟨stem, hstem⟩ := Binary.extended_of_mem_names hname
    have hfour : ("." ++ extension).length = 4 := by
      rw [String.length_append, hlength]
      rfl
    have htails : lastFour? (stem ++ ("." ++ extension)) = some ("." ++ extension) :=
      lastFour?_append hfour
    rw [← hstem, hsplit, lastFour?_append htail] at htails
    cases htails
    exact .inr hbegins

theorem HoldsOwn.find?_packaged (h : index.HoldsOwn) (hlength : extension.length = 3)
    (hname : name ∈ Binary.names extension files) (hfound : index.find? name = some path) :
    ∃ f, path.fileName? = some f ∧ index.files[f]? = some path ∧
      (f = Text.bytes name ∨ Text.bytes ("." ++ extension) <+: f) := by
  obtain ⟨f, hstands, hfile⟩ := find?_eq_some hfound
  exact ⟨f, h f path hfile, hfile, hstands.same_or_begins hlength hname⟩

/-- Where no recorded name begins with the dot and the extension, a packaged binary is mapped to a
file of its own name, if to any. -/
theorem HoldsOwn.identify_packaged (h : index.HoldsOwn) (hlength : extension.length = 3)
    (hname : name ∈ Binary.names extension files)
    (hnone : ∀ f ∈ index.files, ¬Text.bytes ("." ++ extension) <+: f) {settings : Settings}
    {c : Coordinate} (hfound : (⟨settings, index⟩ : Mapping).identify name = .found c path) :
    path.fileName? = some (Text.bytes name) ∧ index.files[Text.bytes name]? = some path ∧
      coordinateOf? index.root path = some c := by
  unfold Mapping.identify at hfound
  split at hfound
  · cases hfound
  · split at hfound
    · rename_i module found hidentified
      cases hfound
      obtain ⟨found, hpath, hmodule⟩ := Option.bind_eq_some_iff.1 hidentified
      obtain ⟨module, hmodule, hpair⟩ := Option.map_eq_some_iff.1 hmodule
      cases hpair
      obtain ⟨f, hown, hfile, rfl | hbegins⟩ := h.find?_packaged hlength hname hpath
      · exact ⟨hown, hfile, hmodule⟩
      · exact absurd hbegins (hnone f (mem_files hfile))
    · cases hfound

/-- What the index of a repository finds for a packaged binary, where the extension has three
characters: a file of its own name, or one whose name begins with the dot and the extension. In a
repository without files of the second kind, a coordinate that is found for a binary is read off the
place of the file of the same name that is recorded last. -/
theorem survey_find?_packaged (h : (survey t root extension).outcome = .ok index)
    (hlength : extension.length = 3) (hname : name ∈ Binary.names extension files) :
    (∀ path, index.find? name = some path →
      path.fileName? = some (Text.bytes name) ∨
        ∃ f, path.fileName? = some f ∧ Text.bytes ("." ++ extension) <+: f) ∧
    ((∀ f ∈ index.files, ¬Text.bytes ("." ++ extension) <+: f) →
      ∀ (settings : Settings) (c : Coordinate) (path : Path),
        (⟨settings, index⟩ : Mapping).identify name = .found c path →
          path.fileName? = some (Text.bytes name) ∧ coordinateOf? root path = some c) ∧
    (t.WellFormed → ∀ directory, t.directory? root = some directory →
      (∀ names f, t.ReachesFile directory names → names.getLast? = some f →
        ¬Text.bytes ("." ++ extension) <+: f) →
      ∀ (settings : Settings) (c : Coordinate) (path : Path),
        (⟨settings, index⟩ : Mapping).identify name = .found c path →
          ∃ names, RecordsLast t directory root extension (Text.bytes name) names ∧
            path = pathTo root names ∧ path.fileName? = some (Text.bytes name) ∧
            coordinateOf? root path = some c) := by
  have hown := holdsOwn_survey h
  have hroot : index.root = root := by
    obtain ⟨directory, -, -, rfl⟩ := survey_ok h
    exact root_collected t directory root extension
  refine ⟨fun path hfound => ?_, fun hnone settings c path hfound => ?_,
    fun ht directory hdirectory hnone settings c path hfound => ?_⟩
  · obtain ⟨f, hf, -, rfl | hbegins⟩ := hown.find?_packaged hlength hname hfound
    · exact .inl hf
    · exact .inr ⟨f, hf, hbegins⟩
  · obtain ⟨hf, -, hmodule⟩ := hown.identify_packaged hlength hname hnone hfound
    exact ⟨hf, hroot ▸ hmodule⟩
  · obtain ⟨found, hfounddirectory, hmem, hlast, -, -⟩ := survey_index ht h
    cases hdirectory.symm.trans hfounddirectory
    have hrecorded : ∀ f ∈ index.files, ¬Text.bytes ("." ++ extension) <+: f := by
      intro f hf
      obtain ⟨names, hrecords⟩ := (hmem f).1 hf
      exact hnone names f hrecords.reached hrecords.named
    obtain ⟨hf, hfile, hmodule⟩ := hown.identify_packaged hlength hname hrecorded hfound
    obtain ⟨names, hrecords, hpath, -⟩ := (hlast _ _).1 hfile
    exact ⟨names, hrecords, hpath, hf, hroot ▸ hmodule⟩

/-- A binary that is in the repository is mapped to the file of its name there. -/
theorem stocked_packaged :
    ∃ c path, "x-1.jar" ∈ Binary.names "jar" [.ofString "lib/x-1.jar"] ∧
      (⟨{}, Generation.stockedIndex⟩ : Mapping).identify "x-1.jar" = .found c path ∧
      path.fileName? = some (Text.bytes "x-1.jar") ∧
      coordinateOf? (.ofString "m2") path = some c := by
  have hname : "x-1.jar" ∈ Binary.names "jar" [.ofString "lib/x-1.jar"] := by decide +kernel
  have hkeys : Generation.stockedIndex.files.keys = [Text.bytes "x-1.jar"] := by decide +kernel
  have hnone : ∀ f ∈ Generation.stockedIndex.files, ¬Text.bytes ("." ++ "jar") <+: f := by
    intro f hf
    rw [← Std.TreeMap.mem_keys, hkeys, List.mem_singleton] at hf
    rw [hf]
    decide +kernel
  have hrule : (NamingRule.ruling? {} "x-1.jar").isNone := by decide +kernel
  have hindex : Generation.stockedIndex.identify? "x-1.jar" =
      some (⟨"org", "x", .fixed "1"⟩, .ofString "m2/org/x/1/x-1.jar") := by
    decide +kernel
  have hfound : (⟨{}, Generation.stockedIndex⟩ : Mapping).identify "x-1.jar" =
      .found ⟨"org", "x", .fixed "1"⟩ (.ofString "m2/org/x/1/x-1.jar") := by
    rw [Mapping.identify, Option.isNone_iff_eq_none.1 hrule, hindex]
  have hpackaged := survey_find?_packaged (Generation.stocked_index .empty) rfl hname
  exact ⟨_, _, hname, hfound, hpackaged.2.1 hnone _ _ _ hfound⟩

/-- A file whose name begins with the dot and the extension does stand in for others. -/
example : ((empty (.ofString "m2")).record (.ofString "m2/org/x/odd/1/.jar-odd.jar")).find?
    "renamed.jar" = some (.ofString "m2/org/x/odd/1/.jar-odd.jar") := by
  decide +kernel

end ArtifactIndex
end BillOfMaterials
