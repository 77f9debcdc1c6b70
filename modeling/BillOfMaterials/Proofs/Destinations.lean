import BillOfMaterials.Proofs.Places
import BillOfMaterials.Proofs.ShortNames
import BillOfMaterials.Settings

/-!
# Manifests below the output directory

By default the archives that are selected are called `apache-tomee-…`, and `apache-` is taken out of their
names wherever it stands. No version begins before the second hyphen, and the first `apache-` ends before
`tomee`, of which nothing is part of another one. So every short name begins with `tomee`: it is neither
empty nor `.` nor `..`, and since file names hold no separator, it is one component of a path.
-/
namespace BillOfMaterials

namespace DistributionName

open Text

/-- The name of a default archive, cut at the places that matter. -/
theorem exists_rest {archive : String}
    (h : startsWith archive ({} : Settings).archivePrefix) :
    ∃ rest, archive.toList = "apache".toList ++ '-' :: ("tomee".toList ++ '-' :: rest) := by
  obtain ⟨rest, hrest⟩ := List.isPrefixOf_iff_prefix.1 h
  exact ⟨rest, hrest.symm⟩

theorem toList_short (archive namePrefix : String) :
    (ofArchive archive namePrefix).short.toList = shortName namePrefix.toList archive.toList :=
  String.toList_ofList

theorem short_begins {archive : String}
    (h : startsWith archive ({} : Settings).archivePrefix) :
    ∃ rest, (ofArchive archive ({} : Settings).namePrefix).short.toList = "tomee".toList ++ rest := by
  obtain ⟨rest, harchive⟩ := exists_rest h
  have hunversioned : unversioned archive.toList =
      "apache-".toList ++ ("tomee".toList ++ unversioned ('-' :: rest)) := by
    have hletter : ∀ c ∈ ("tomee".toList ++ '-' :: rest).head?, c.isDigit = false := by
      intro c hc
      cases hc
      rfl
    rw [harchive, unversioned_append (by decide), unversioned_cons fun _ => hletter,
      unversioned_append (by decide)]
    rfl
  refine ⟨replaceAll "apache-".toList [] (unversioned ('-' :: rest)), ?_⟩
  have hpass : Replaces "apache-".toList [] (unversioned archive.toList)
      ("tomee".toList ++ replaceAll "apache-".toList [] (unversioned ('-' :: rest))) := by
    rw [hunversioned]
    exact .hit ((replaces_replaceAll (by decide) _ _).append_kept (by decide))
  rw [toList_short, shortName]
  exact (replaces_iff (by decide)).1 hpass

end DistributionName

/-- A text is an ordinary name unless it is empty, `.` or `..` or holds a separator. -/
theorem Path.ordinary_of_text {s : String} (hne : s ≠ "") (hhere : s ≠ ".") (hup : s ≠ "..")
    (hslash : '/' ∉ s.toList) : (Component.name (Text.bytes s)).IsOrdinary :=
  ⟨fun h => hne (Text.bytes_injective h), fun h => hhere (Text.bytes_injective h),
    fun h => hup (Text.bytes_injective h), Text.not_mem_bytes (by decide) hslash⟩

namespace Bom

open Text (bytes)

/-- By default the manifest of a selected archive lies below the output directory, whatever that is: its
path has the components of the output directory and two more, the short name and the file name of
manifests. The short name is the name of an entry. -/
theorem path_below_output (output : Path) {archive : String} (coordinates : List Coordinate)
    (unknown : List String) (hselected : Text.startsWith archive ({} : Settings).archivePrefix)
    (hfile : '/' ∉ archive.toList) :
    let name := DistributionName.ofArchive archive ({} : Settings).namePrefix
    (path output (.assemble archive name coordinates unknown)).components =
        output.components ++ [.name (bytes name.short), .name (bytes "pom.xml")] ∧
      name.short ≠ "" ∧ name.short ≠ "." ∧ name.short ≠ ".." ∧ '/' ∉ name.short.toList := by
  intro name
  obtain ⟨rest, hbegins⟩ := DistributionName.short_begins hselected
  have hother {s : String} (hs : s.toList.head? ≠ some 't') : name.short ≠ s := by
    rintro rfl
    exact hs (congrArg List.head? hbegins)
  have hslash : '/' ∉ name.short.toList := by
    intro hmem
    have hshort : '/' ∈ DistributionName.shortName _ archive.toList :=
      DistributionName.toList_short archive _ ▸ hmem
    exact hfile ((DistributionName.shortName_sublist _ _).subset hshort)
  have hne : name.short ≠ "" := hother (by decide)
  have hhere : name.short ≠ "." := hother (by decide)
  have hup : name.short ≠ ".." := hother (by decide)
  refine ⟨?_, hne, hhere, hup, hslash⟩
  have hshort := Path.ordinary_of_text hne hhere hup hslash
  show ((output.join ⟨bytes name.short⟩).join ⟨bytes fileName⟩).components = _
  rw [Path.components_join_name ordinary_fileName, Path.components_join_name hshort, List.append_assoc]
  rfl

/-- The name is cut before the version, and the prefix stands in it three times. -/
theorem apache_below_output :
    let archive := "apache-tomee-apache-apache-..-8.0.6.zip"
    Text.startsWith archive ({} : Settings).archivePrefix ∧ '/' ∉ archive.toList ∧
      (path (.ofString "..//boms/.")
          (.assemble archive (.ofArchive archive ({} : Settings).namePrefix) [] [])).components =
        [.up, .name (bytes "boms"), .name (bytes "tomee-.."), .name (bytes "pom.xml")] := by
  intro archive
  have hselected : Text.startsWith archive ({} : Settings).archivePrefix := by decide +kernel
  have hfile : '/' ∉ archive.toList := by decide +kernel
  refine ⟨hselected, hfile, ?_⟩
  rw [(path_below_output _ [] [] hselected hfile).1]
  decide +kernel

end Bom
end BillOfMaterials
