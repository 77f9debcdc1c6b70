import BillOfMaterials.Json.Reader
import BillOfMaterials.Proofs.Encoding
import BillOfMaterials.Summary

/-!
# Reading a summary back

A document that was laid out on several lines is read back as the value it was made of. The reader
is taken through the layout piece by piece: one character of a quoted text, one text, one element or
member, one value, each before any text that may follow. Its fuel suffices because every piece is at
least as long as the number of steps it takes. Numbers are left aside, since a summary holds none.
-/
namespace BillOfMaterials

namespace Json

/-! ## Quoted texts -/

theorem hexValue?_hexDigit {n : Nat} (h : n < 16) : hexValue? (hexDigit n) = some n := by
  interval_cases n <;> rfl

theorem readUnit_hexDigits {n : Nat} (h : n < 0x20) (rest : List Char) :
    readUnit ('0' :: '0' :: hexDigit (n / 16) :: hexDigit (n % 16) :: rest) = some (n, rest) := by
  have hzero : hexValue? '0' = some 0 := rfl
  have hhigh := hexValue?_hexDigit (n := n / 16) (by omega)
  have hlow := hexValue?_hexDigit (n := n % 16) (by omega)
  have hn : n / 16 * 16 + n % 16 = n := by omega
  simp only [readUnit, hzero, hhigh, hlow, Option.bind_eq_bind, Option.bind_some]
  simp [hn]

theorem readEscape_unit {n : Nat} (h : n < 0x20) (rest : List Char) :
    readEscape ('u' :: '0' :: '0' :: hexDigit (n / 16) :: hexDigit (n % 16) :: rest) =
      some (Char.ofNat n, rest) := by
  rw [readEscape, readUnit_hexDigits h]
  simp only [Option.bind_eq_bind, Option.bind_some]
  rw [if_neg (by omega), if_neg (by omega)]

/-- A letter of a short escape stands for the character it was chosen for. -/
theorem readEscape_short {c letter : Char} (h : shortEscape? c = some letter) (rest : List Char) :
    readEscape (letter :: rest) = some (c, rest) := by
  unfold shortEscape? at h
  split at h <;> cases h <;> rfl

theorem readQuoted_escaped {c : Char} {escaped rest : List Char}
    (h : readEscape (escaped ++ rest) = some (c, rest)) (fuel : Nat) :
    readQuoted (fuel + 1) ('\\' :: (escaped ++ rest)) =
      (readQuoted fuel rest).map fun (s, rest) => (c :: s, rest) := by
  rw [readQuoted, h]
  simp only [Option.bind_eq_bind, Option.bind_some]
  cases readQuoted fuel rest <;> rfl

/-- One character of a quoted text. -/
theorem readQuoted_escape (fuel : Nat) (c : Char) (rest : List Char) :
    readQuoted (fuel + 1) (escape c ++ rest) =
      (readQuoted fuel rest).map fun (s, rest) => (c :: s, rest) := by
  unfold escape
  by_cases hquote : c = '"'
  · subst hquote
    have hread : readEscape (['"'] ++ rest) = some ('"', rest) := rfl
    exact readQuoted_escaped hread fuel
  by_cases hback : c = '\\'
  · subst hback
    have hread : readEscape (['\\'] ++ rest) = some ('\\', rest) := rfl
    exact readQuoted_escaped hread fuel
  rw [if_neg hquote, if_neg hback]
  cases hshort : shortEscape? c with
  | some letter =>
    have hread : readEscape ([letter] ++ rest) = some (c, rest) := readEscape_short hshort rest
    exact readQuoted_escaped hread fuel
  | none =>
    dsimp only
    by_cases hcontrol : c.toNat < 0x20
    · rw [if_pos hcontrol]
      have hread : readEscape (['u', '0', '0', hexDigit (c.toNat / 16), hexDigit (c.toNat % 16)] ++
          rest) = some (c, rest) := by
        have hunit := readEscape_unit hcontrol rest
        rwa [Char.ofNat_toNat] at hunit
      exact readQuoted_escaped hread fuel
    · rw [if_neg hcontrol, List.singleton_append, readQuoted]
      · rw [if_neg hcontrol]
        cases readQuoted fuel rest <;> rfl
      · exact fun h => hquote h
      · exact fun h => hback h

/-- A quoted text, with fuel for each of its characters and the closing quote. -/
theorem readQuoted_flatMap {s : List Char} {fuel : Nat} (h : s.length < fuel) (rest : List Char) :
    readQuoted fuel (s.flatMap escape ++ '"' :: rest) = some (s, rest) := by
  induction s generalizing fuel with
  | nil =>
    cases fuel with
    | zero => cases h
    | succ fuel => rfl
  | cons c s ih =>
    cases fuel with
    | zero => cases h
    | succ fuel =>
      rw [List.flatMap_cons, List.append_assoc, readQuoted_escape, ih (Nat.lt_of_succ_lt_succ h)]
      rfl

theorem length_le_escaped (s : List Char) : s.length ≤ (s.flatMap escape).length := by
  induction s with
  | nil => exact Nat.le_refl 0
  | cons c s ih =>
    have hc : 1 ≤ (escape c).length := by
      unfold escape
      split
      · decide
      split
      · decide
      split
      · exact Nat.le_add_left 1 1
      · split <;> simp
    rw [List.flatMap_cons, List.length_append, List.length_cons]
    omega

/-! ## Blanks between tokens -/

theorem skipBlanks_lineBreak (depth : Nat) (rest : List Char) :
    skipBlanks (lineBreak depth ++ rest) = skipBlanks rest := by
  have hall : ∀ c ∈ lineBreak depth, isBlank c = true := by
    intro c hc
    rcases List.mem_cons.1 hc with rfl | hc
    · rfl
    · rw [List.eq_of_mem_replicate hc]
      rfl
  exact List.dropWhile_append_of_pos hall

theorem skipBlanks_of_not {c : Char} (h : isBlank c = false) (rest : List Char) :
    skipBlanks (c :: rest) = c :: rest :=
  List.dropWhile_cons_of_neg (by simp [h])

/-! ## Values -/

/-- The layout of a value begins with a character of its own and is read as the value. -/
structure IsReadable (j : Json) : Prop where
  opens : ∀ depth, ∃ c cs, layout depth j = c :: cs ∧ isBlank c = false ∧ c ≠ ']'
  reads : ∀ depth fuel rest, (layout depth j).length ≤ fuel →
    readValue fuel (layout depth j ++ rest) = some (j, rest)

theorem IsReadable.skipBlanks_layout {j : Json} (h : IsReadable j) (outer depth : Nat)
    (rest : List Char) :
    skipBlanks (lineBreak outer ++ (layout depth j ++ rest)) = layout depth j ++ rest := by
  obtain ⟨c, cs, hlayout, hblank, -⟩ := h.opens depth
  rw [skipBlanks_lineBreak, hlayout]
  exact skipBlanks_of_not hblank _

theorem isReadable_bool (b : Bool) : IsReadable (.bool b) := by
  constructor
  · intro depth
    cases b
    · exact ⟨'f', _, rfl, rfl, by decide⟩
    · exact ⟨'t', _, rfl, rfl, by decide⟩
  · intro depth fuel rest h
    cases fuel with
    | zero => cases b <;> cases h
    | succ fuel => cases b <;> rfl

theorem isReadable_string (text : String) : IsReadable (.string text) := by
  constructor
  · exact fun depth => ⟨'"', _, rfl, rfl, by decide⟩
  · intro depth fuel rest h
    have hlength := length_le_escaped text.toList
    have hlayout : layout depth (.string text) = quote text.toList := by rw [layout]
    rw [hlayout] at h ⊢
    rw [quote, List.length_cons, List.length_append, List.length_singleton] at h
    cases fuel with
    | zero => cases h
    | succ fuel =>
      have hread : readQuoted fuel (text.toList.flatMap escape ++ '"' :: rest) =
          some (text.toList, rest) := readQuoted_flatMap (by omega) rest
      rw [quote, List.cons_append, List.append_assoc, List.singleton_append, readValue, hread,
        Option.map_some]
      dsimp only
      rw [String.ofList_toList]

/-! ## Arrays and objects -/

theorem readItems_item {item : Json} (hitem : IsReadable item) {depth fuel : Nat}
    (h : (layout depth item).length ≤ fuel) (rest more : List Char) :
    (skipBlanks rest = ']' :: more →
        readItems (fuel + 1) (layout depth item ++ rest) = some ([item], more)) ∧
      (skipBlanks rest = ',' :: more → readItems (fuel + 1) (layout depth item ++ rest) =
        (readItems fuel (skipBlanks more)).map fun (items, rest) => (item :: items, rest)) := by
  rw [readItems, hitem.reads depth fuel rest h]
  simp only [Option.bind_eq_bind, Option.bind_some]
  constructor
  · intro hrest
    rw [hrest]
    rfl
  · intro hrest
    rw [hrest]
    show (readItems fuel (skipBlanks more)).bind _ = _
    cases readItems fuel (skipBlanks more) <;> rfl

theorem readItems_layout {items : List Json} {item : Json} (hitem : IsReadable item)
    (hitems : ∀ other ∈ items, IsReadable other) (depth outer fuel : Nat) (rest : List Char)
    (h : (layout depth item).length + (layoutItems depth items).length < fuel) :
    readItems fuel (layout depth item ++
      (layoutItems depth items ++ (lineBreak outer ++ ']' :: rest))) =
        some (item :: items, rest) := by
  -- on the elements that follow: each one is at least a comma longer than what is read before it
  induction items generalizing item fuel with
  | nil =>
    cases fuel with
    | zero => cases h
    | succ fuel =>
      apply (readItems_item hitem (by omega) _ _).1
      rw [layoutItems, List.nil_append, skipBlanks_lineBreak, skipBlanks_of_not rfl]
  | cons next items ih =>
    obtain ⟨hnext, hothers⟩ := List.forall_mem_cons.1 hitems
    cases fuel with
    | zero => cases h
    | succ fuel =>
      rw [layoutItems, List.length_cons, List.length_append, List.length_append] at h
      rw [layoutItems, List.cons_append,
        (readItems_item hitem (by omega) _ _).2 (skipBlanks_of_not rfl _)]
      simp only [List.append_assoc]
      rw [hnext.skipBlanks_layout, ih hnext hothers fuel (by omega), Option.map_some]

theorem isReadable_array {items : List Json} (h : ∀ item ∈ items, IsReadable item) :
    IsReadable (.array items) := by
  constructor
  · intro depth
    cases items with
    | nil => exact ⟨'[', _, rfl, rfl, by decide⟩
    | cons item items => exact ⟨'[', _, rfl, rfl, by decide⟩
  · intro depth fuel rest hfuel
    cases items with
    | nil =>
      cases fuel with
      | zero => cases hfuel
      | succ fuel => rfl
    | cons item items =>
      obtain ⟨hitem, hitems⟩ := List.forall_mem_cons.1 h
      have hlayout : layout depth (.array (item :: items)) =
          '[' :: (lineBreak (depth + 1) ++ layout (depth + 1) item ++
            layoutItems (depth + 1) items ++ lineBreak depth ++ [']']) := by rw [layout]
      have hbreak : 1 ≤ (lineBreak (depth + 1)).length := Nat.le_add_left _ _
      rw [hlayout] at hfuel ⊢
      simp only [List.length_cons, List.length_append, List.length_nil] at hfuel
      cases fuel with
      | zero => cases hfuel
      | succ fuel =>
        have hread := readItems_layout hitem hitems (depth + 1) depth fuel rest (by omega)
        obtain ⟨c, cs, hfirst, -, hne⟩ := hitem.opens (depth + 1)
        simp only [List.cons_append, List.append_assoc, List.nil_append]
        rw [readValue, hitem.skipBlanks_layout]
        rw [hfirst, List.cons_append] at hread ⊢
        split
        · rename_i heq
          cases heq
          exact absurd rfl hne
        · rw [hread]
          rfl

theorem readMembers_member {name : String} {value : Json} (hvalue : IsReadable value)
    {depth fuel : Nat} (h : (quote name.toList).length + (layout depth value).length ≤ fuel)
    (rest more : List Char) :
    let text := quote name.toList ++ ([':', ' '] ++ (layout depth value ++ rest))
    (skipBlanks rest = '\x7d' :: more →
        readMembers (fuel + 1) text = some ([(name, value)], more)) ∧
      (skipBlanks rest = ',' :: more → readMembers (fuel + 1) text =
        (readMembers fuel (skipBlanks more)).map fun (members, rest) =>
          ((name, value) :: members, rest)) := by
  have hlength := length_le_escaped name.toList
  rw [quote, List.length_cons, List.length_append, List.length_singleton] at h
  have hname (more : List Char) : readQuoted fuel (name.toList.flatMap escape ++ '"' :: more) =
      some (name.toList, more) := readQuoted_flatMap (by omega) more
  have hblank : skipBlanks (' ' :: (layout depth value ++ rest)) = layout depth value ++ rest :=
    hvalue.skipBlanks_layout 0 depth rest
  intro text
  have htext : text = '"' :: (name.toList.flatMap escape ++
      '"' :: ':' :: ' ' :: (layout depth value ++ rest)) := by
    simp [text, quote]
  rw [htext, readMembers, hname]
  simp only [Option.bind_eq_bind, Option.bind_some]
  rw [skipBlanks_of_not rfl]
  simp only [hblank, hvalue.reads depth fuel rest (by omega), Option.bind_some,
    String.ofList_toList]
  constructor
  · intro hrest
    rw [hrest]
    rfl
  · intro hrest
    rw [hrest]
    show (readMembers fuel (skipBlanks more)).bind _ = _
    cases readMembers fuel (skipBlanks more) <;> rfl

theorem readMembers_layout {members : List (String × Json)} {value : Json}
    (hvalue : IsReadable value) (hmembers : ∀ member ∈ members, IsReadable member.2)
    (name : String) (depth outer fuel : Nat) (rest : List Char)
    (h : (quote name.toList).length + (layout depth value).length +
      (layoutMembers depth members).length < fuel) :
    readMembers fuel (quote name.toList ++ ([':', ' '] ++ (layout depth value ++
      (layoutMembers depth members ++ (lineBreak outer ++ '\x7d' :: rest))))) =
        some ((name, value) :: members, rest) := by
  induction members generalizing name value fuel with
  | nil =>
    cases fuel with
    | zero => cases h
    | succ fuel =>
      apply (readMembers_member hvalue (by omega) _ _).1
      rw [layoutMembers, List.nil_append, skipBlanks_lineBreak, skipBlanks_of_not rfl]
  | cons member members ih =>
    obtain ⟨next, other⟩ := member
    have hother : IsReadable other := hmembers _ List.mem_cons_self
    have hothers := (List.forall_mem_cons.1 hmembers).2
    cases fuel with
    | zero => cases h
    | succ fuel =>
      rw [layoutMembers] at h
      simp only [List.length_cons, List.length_append, List.length_nil] at h
      have hread := ih hother hothers next fuel (by omega)
      have hcomma : skipBlanks (layoutMembers depth ((next, other) :: members) ++
          (lineBreak outer ++ '\x7d' :: rest)) =
          ',' :: (lineBreak depth ++ (quote next.toList ++ ([':', ' '] ++ (layout depth other ++
            (layoutMembers depth members ++ (lineBreak outer ++ '\x7d' :: rest)))))) := by
        rw [layoutMembers]
        simp only [List.cons_append, List.append_assoc]
        exact skipBlanks_of_not rfl _
      have hname (more : List Char) : skipBlanks (quote next.toList ++ more) =
          quote next.toList ++ more := skipBlanks_of_not rfl _
      rw [(readMembers_member hvalue (by omega) _ _).2 hcomma, skipBlanks_lineBreak, hname, hread,
        Option.map_some]

theorem isReadable_object {members : List (String × Json)}
    (h : ∀ member ∈ members, IsReadable member.2) : IsReadable (.object members) := by
  constructor
  · intro depth
    cases members with
    | nil => exact ⟨'\x7b', _, rfl, rfl, by decide⟩
    | cons member members => exact ⟨'\x7b', _, rfl, rfl, by decide⟩
  · intro depth fuel rest hfuel
    cases members with
    | nil =>
      cases fuel with
      | zero => cases hfuel
      | succ fuel => rfl
    | cons member members =>
      obtain ⟨name, value⟩ := member
      have hvalue : IsReadable value := h _ List.mem_cons_self
      have hmembers := (List.forall_mem_cons.1 h).2
      have hlayout : layout depth (.object ((name, value) :: members)) =
          '\x7b' :: (lineBreak (depth + 1) ++ quote name.toList ++ [':', ' '] ++
            layout (depth + 1) value ++ layoutMembers (depth + 1) members ++ lineBreak depth ++
              ['\x7d']) := by rw [layout]
      rw [hlayout] at hfuel ⊢
      simp only [List.length_cons, List.length_append, List.length_nil] at hfuel
      cases fuel with
      | zero => cases hfuel
      | succ fuel =>
        have hread := readMembers_layout hvalue hmembers name (depth + 1) depth fuel rest (by omega)
        have hquote (more : List Char) : skipBlanks (lineBreak (depth + 1) ++
            (quote name.toList ++ more)) = quote name.toList ++ more := by
          rw [skipBlanks_lineBreak]
          exact skipBlanks_of_not rfl _
        simp only [List.cons_append, List.append_assoc, List.nil_append] at hread ⊢
        rw [readValue, hquote]
        split
        · rename_i heq
          cases heq
        · rw [hread]
          rfl

/-- A document is read back as the value it was made of. -/
theorem IsReadable.read?_render {j : Json} (h : IsReadable j) : read? j.render = some j := by
  obtain ⟨c, cs, hlayout, hblank, -⟩ := h.opens 0
  have hstart : skipBlanks (layout 0 j) = layout 0 j := by
    rw [hlayout]
    exact skipBlanks_of_not hblank cs
  have hread := h.reads 0 ((layout 0 j).length + 1) [] (Nat.le_succ _)
  rw [List.append_nil] at hread
  unfold read? render
  simp only [String.toList_ofList, hstart, hread, Option.bind_eq_bind, Option.bind_some]
  rfl

end Json

namespace Summary

theorem isReadable_texts (texts : List String) : (Json.array (texts.map .string)).IsReadable := by
  apply Json.isReadable_array
  intro item hitem
  obtain ⟨text, -, rfl⟩ := List.mem_map.1 hitem
  exact Json.isReadable_string text

theorem isReadable_coordinateJson (c : Coordinate) : (coordinateJson c).IsReadable := by
  apply Json.isReadable_object
  simp only [List.forall_mem_cons, List.not_mem_nil, false_imp_iff, implies_true, and_true]
  exact ⟨Json.isReadable_string _, Json.isReadable_string _, Json.isReadable_string _⟩

theorem isReadable_distributionJson (d : Distribution) : (distributionJson d).IsReadable := by
  have hcoordinates : (Json.array (d.coordinates.map coordinateJson)).IsReadable := by
    apply Json.isReadable_array
    intro item hitem
    obtain ⟨c, -, rfl⟩ := List.mem_map.1 hitem
    exact isReadable_coordinateJson c
  apply Json.isReadable_object
  simp only [List.forall_mem_cons, List.not_mem_nil, false_imp_iff, implies_true, and_true]
  exact ⟨Json.isReadable_string _, Json.isReadable_string _, Json.isReadable_string _,
    hcoordinates, isReadable_texts d.unknown⟩

/-- The document of a summary is read back as exactly its distributions, the texts of the paths
written and whether anything was to be written, whatever characters any of its texts hold. -/
theorem read?_render_toJson (distributions : List Distribution) (written : List String)
    (dryRun : Bool) :
    Json.read? (toJson ⟨distributions, written.map .ofString, dryRun⟩).render =
      some (.object [
        ("distributions", .array (distributions.map fun d => .object [
          ("archive", .string d.archive),
          ("short", .string d.name.short),
          ("display", .string d.name.display),
          ("coordinates", .array (d.coordinates.map fun c => .object [
            ("group_id", .string c.group),
            ("artifact_id", .string c.artifact),
            ("version", .string c.version.render)])),
          ("unresolved", .array (d.unknown.map .string))])),
        ("written", .array (written.map .string)),
        ("dry_run", .bool dryRun)]) := by
  have hdistributions : (Json.array (distributions.map distributionJson)).IsReadable := by
    apply Json.isReadable_array
    intro item hitem
    obtain ⟨d, -, rfl⟩ := List.mem_map.1 hitem
    exact isReadable_distributionJson d
  have hwritten : (written.map Path.ofString).map (fun path => Json.string path.text) =
      written.map .string := by
    rw [List.map_map]
    exact List.map_congr_left fun s _ => congrArg Json.string (Text.ofBytes_bytes s)
  unfold toJson
  dsimp only
  rw [hwritten]
  apply Json.IsReadable.read?_render
  apply Json.isReadable_object
  simp only [List.forall_mem_cons, List.not_mem_nil, false_imp_iff, implies_true, and_true]
  exact ⟨hdistributions, isReadable_texts written, Json.isReadable_bool dryRun⟩

end Summary
end BillOfMaterials
