import BillOfMaterials.Proofs.Pieces
import Mathlib.Tactic.IntervalCases

/-!
# Texts and their bytes

Reading the bytes of a text gives the text back, so bytes are well-formed exactly if they are those
of a text. A separator that is one byte never lies inside of the bytes of another character. So the
pieces of a path that is text are texts, too, and nothing is replaced in them.
-/
namespace BillOfMaterials

namespace Text

theorem bytes_ofList (cs : List Char) :
    bytes (String.ofList cs) = cs.flatMap String.utf8EncodeChar := by
  show (cs.flatMap String.utf8EncodeChar).toByteArray.data.toList = _
  simp

theorem bytes_eq (s : String) : bytes s = s.toList.flatMap String.utf8EncodeChar := by
  rw [← bytes_ofList, String.ofList_toList]

/-! ## Reading a character back -/

theorem opening_one {n : Nat} (h : n < 0x80) :
    opening (UInt8.ofNat n) = .single (Char.ofNat n) := by
  have hn : (UInt8.ofNat n).toNat = n := by
    rw [UInt8.toNat_ofNat']
    omega
  unfold opening
  rw [if_pos (UInt8.lt_iff_toNat_lt.2 (by rw [hn]; exact h)), hn]

theorem opening_two {n : Nat} (hlow : 2 ≤ n) (hhigh : n < 0x20) :
    opening (UInt8.ofNat (n + 0xC0)) = .first ⟨n, 1, 0x80, 0xBF⟩ := by
  interval_cases n <;> rfl

theorem opening_three {n : Nat} (h : n < 0x10) :
    opening (UInt8.ofNat (n + 0xE0)) =
      .first ⟨n, 2, if n = 0 then 0xA0 else 0x80, if n = 0xD then 0x9F else 0xBF⟩ := by
  interval_cases n <;> rfl

theorem opening_four {n : Nat} (h : n < 5) :
    opening (UInt8.ofNat (n + 0xF0)) =
      .first ⟨n, 3, if n = 0 then 0x90 else 0x80, if n = 4 then 0x8F else 0xBF⟩ := by
  interval_cases n <;> rfl

theorem readFrom_first {b : UInt8} {p : Pending} (h : opening b = .first p) (rest : Bytes) :
    readFrom none (b :: rest) = readFrom (some p) rest := by
  rw [readFrom, h]

/-! A byte in the range that is asked for adds its six bits. -/

section Next

variable {bits owed n : Nat} {low high : UInt8} (hn : n < 0x40) (hlow : low.toNat ≤ n + 0x80)
  (hhigh : n + 0x80 ≤ high.toNat) (rest : Bytes)

include hn hlow hhigh

theorem readFrom_next :
    readFrom (some ⟨bits, owed, low, high⟩) (UInt8.ofNat (n + 0x80) :: rest) =
      if owed ≤ 1 then Char.ofNat (bits * 64 + n) :: readFrom none rest
      else readFrom (some ⟨bits * 64 + n, owed - 1, 0x80, 0xBF⟩) rest := by
  have hb : (UInt8.ofNat (n + 0x80)).toNat = n + 0x80 := by
    rw [UInt8.toNat_ofNat']
    omega
  have hrange : low ≤ UInt8.ofNat (n + 0x80) ∧ UInt8.ofNat (n + 0x80) ≤ high := by
    rw [UInt8.le_iff_toNat_le, UInt8.le_iff_toNat_le, hb]
    exact ⟨hlow, hhigh⟩
  rw [readFrom, if_pos hrange, hb]
  simp only [Nat.add_sub_cancel]

theorem readFrom_last :
    readFrom (some ⟨bits, 1, low, high⟩) (UInt8.ofNat (n + 0x80) :: rest) =
      Char.ofNat (bits * 64 + n) :: readFrom none rest := by
  rw [readFrom_next hn hlow hhigh, if_pos (Nat.le_refl 1)]

theorem readFrom_more :
    readFrom (some ⟨bits, owed + 2, low, high⟩) (UInt8.ofNat (n + 0x80) :: rest) =
      readFrom (some ⟨bits * 64 + n, owed + 1, 0x80, 0xBF⟩) rest := by
  rw [readFrom_next hn hlow hhigh, if_neg (by omega)]
  rfl

end Next

/-- The bytes of a character are read as that character. -/
theorem readFrom_encode (c : Char) (rest : Bytes) :
    readFrom none (String.utf8EncodeChar c ++ rest) = c :: readFrom none rest := by
  have hc : Char.ofNat c.val.toNat = c := Char.ofNat_toNat c
  have hvalid : c.val.toNat < 0xD800 ∨ 0xDFFF < c.val.toNat ∧ c.val.toNat < 0x110000 := c.valid
  unfold String.utf8EncodeChar
  dsimp only
  generalize c.val.toNat = v at hc hvalid
  subst hc
  have h80 : (0x80 : UInt8).toNat = 0x80 := rfl
  have hBF : (0xBF : UInt8).toNat = 0xBF := rfl
  -- on the number of bytes: the narrower ranges keep to the numbers of characters of that length
  split
  · rw [List.singleton_append, readFrom, opening_one (by omega)]
  split
  · have hfirst := opening_two (n := v / 64) (by omega) (by omega)
    rw [Nat.mod_eq_of_lt (by omega : v / 64 < 0x20), List.cons_append, readFrom_first hfirst,
      List.singleton_append, readFrom_last (by omega) (by omega) (by omega), Nat.div_add_mod' v 64]
  split
  · have hfirst := opening_three (n := v / 4096) (by omega)
    have hlow : (if v / 4096 = 0 then 0xA0 else 0x80 : UInt8).toNat ≤ v / 64 % 64 + 0x80 := by
      split <;> simp
      omega
    have hhigh : v / 64 % 64 + 0x80 ≤ (if v / 4096 = 0xD then 0x9F else 0xBF : UInt8).toNat := by
      split <;> simp <;> omega
    rw [Nat.mod_eq_of_lt (by omega : v / 4096 < 0x10), List.cons_append, readFrom_first hfirst,
      List.cons_append, readFrom_more (by omega) hlow hhigh, List.singleton_append,
      readFrom_last (by omega) (by omega) (by omega)]
    have hv : (v / 4096 * 64 + v / 64 % 64) * 64 + v % 64 = v := by omega
    rw [hv]
  · have hfirst := opening_four (n := v / 262144) (by omega)
    have hlow : (if v / 262144 = 0 then 0x90 else 0x80 : UInt8).toNat ≤
        v / 4096 % 64 + 0x80 := by
      split <;> simp
      omega
    have hhigh : v / 4096 % 64 + 0x80 ≤
        (if v / 262144 = 4 then 0x8F else 0xBF : UInt8).toNat := by
      split <;> simp <;> omega
    rw [Nat.mod_eq_of_lt (by omega : v / 262144 < 0x08), List.cons_append, readFrom_first hfirst,
      List.cons_append, readFrom_more (by omega) hlow hhigh, List.cons_append,
      readFrom_more (by omega) (by omega) (by omega), List.singleton_append,
      readFrom_last (by omega) (by omega) (by omega)]
    have hv : ((v / 262144 * 64 + v / 4096 % 64) * 64 + v / 64 % 64) * 64 + v % 64 = v := by
      omega
    rw [hv]

/-- The bytes of a text are read as that text, whatever follows. -/
theorem ofBytes_append (s : String) (rest : Bytes) :
    ofBytes (bytes s ++ rest) = s ++ ofBytes rest := by
  have hread (cs : List Char) :
      readFrom none (cs.flatMap String.utf8EncodeChar ++ rest) = cs ++ readFrom none rest := by
    induction cs with
    | nil => rfl
    | cons c cs ih =>
      rw [List.flatMap_cons, List.append_assoc, readFrom_encode, ih, List.cons_append]
  rw [ofBytes, bytes_eq, hread, String.ofList_append, String.ofList_toList, ofBytes]

/-- Reading the bytes of a text gives the text. -/
theorem ofBytes_bytes (s : String) : ofBytes (bytes s) = s := by
  have hread := ofBytes_append s []
  rwa [List.append_nil, show ofBytes [] = "" from rfl, String.append_empty] at hread

/-- Bytes are well-formed if they are those of a text. -/
theorem wellFormed_iff {bs : Bytes} : wellFormed bs = true ↔ ∃ s, bytes s = bs := by
  unfold wellFormed
  constructor
  · intro h
    exact ⟨ofBytes bs, eq_of_beq h⟩
  · rintro ⟨s, rfl⟩
    rw [ofBytes_bytes]
    exact beq_self_eq_true _

/-- What follows a text decides whether the whole is well-formed. -/
theorem wellFormed_append (s : String) (rest : Bytes) :
    wellFormed (bytes s ++ rest) = wellFormed rest := by
  unfold wellFormed
  rw [ofBytes_append, bytes_append, Bool.eq_iff_iff, beq_iff_eq, beq_iff_eq,
    List.append_cancel_left_eq]

theorem bytes_ofBytes? {name : Bytes} {s : String} (h : ofBytes? name = some s) :
    bytes s = name := by
  unfold ofBytes? at h
  split at h
  · rename_i hw
    cases h
    exact eq_of_beq hw
  · cases h

/-! ## Separators -/

/-- A byte below 80 is a character of its own wherever it stands. -/
theorem encode_of_mem {c : Char} {b : UInt8} (hb : b.toNat < 0x80)
    (h : b ∈ String.utf8EncodeChar c) : c = Char.ofNat b.toNat := by
  have hc : Char.ofNat c.val.toNat = c := Char.ofNat_toNat c
  have hlarge {n : Nat} (hn : n < 0x100) (hle : 0x80 ≤ n) : b ≠ UInt8.ofNat n := by
    rintro rfl
    rw [UInt8.toNat_ofNat', Nat.mod_eq_of_lt hn] at hb
    omega
  unfold String.utf8EncodeChar at h
  dsimp only at h
  generalize c.val.toNat = v at hc h
  split at h
  · rw [List.mem_singleton.1 h, UInt8.toNat_ofNat', Nat.mod_eq_of_lt (by omega), hc]
  · exfalso
    split at h
    · simp only [List.mem_cons, List.not_mem_nil, or_false] at h
      rcases h with h | h <;> exact hlarge (by omega) (by omega) h
    split at h
    · simp only [List.mem_cons, List.not_mem_nil, or_false] at h
      rcases h with h | h | h <;> exact hlarge (by omega) (by omega) h
    · simp only [List.mem_cons, List.not_mem_nil, or_false] at h
      rcases h with h | h | h | h <;> exact hlarge (by omega) (by omega) h

theorem not_mem_bytes {s : String} {b : UInt8} (hb : b.toNat < 0x80)
    (h : Char.ofNat b.toNat ∉ s.toList) : b ∉ bytes s := by
  intro hmem
  rw [bytes_eq] at hmem
  obtain ⟨c, hc, hbyte⟩ := List.mem_flatMap.1 hmem
  exact h (encode_of_mem hb hbyte ▸ hc)

/-- The pieces of the bytes of a text are the bytes of its pieces. -/
theorem splitOn_bytes (s : String) :
    splitOn Path.slash (bytes s) =
      (splitOn '/' s.toList).map fun piece => bytes (String.ofList piece) := by
  simp only [bytes_eq s, bytes_ofList]
  induction s.toList with
  | nil => rfl
  | cons c cs ih =>
    rw [List.flatMap_cons]
    by_cases hc : c = '/'
    · subst hc
      have hslash : String.utf8EncodeChar '/' = [Path.slash] := rfl
      rw [hslash, List.singleton_append, splitOn_cons_sep, splitOn_cons_sep, ih]
      rfl
    · have hslash : Path.slash ∉ String.utf8EncodeChar c :=
        fun h => hc (encode_of_mem (by decide) h)
      obtain ⟨piece, pieces, hp, hs⟩ := splitOn_append_of_not_mem hslash
        (cs.flatMap String.utf8EncodeChar)
      obtain ⟨first, others, hfirst, hsplit⟩ := splitOn_cons hc cs
      rw [ih, hfirst, List.map_cons, List.cons.injEq] at hp
      obtain ⟨rfl, rfl⟩ := hp
      rw [hs, hsplit, List.map_cons, List.flatMap_cons]

end Text

namespace Path

/-- A path below one that is text is text if it is so by itself. -/
theorem isText_join (s : String) {q : Path} (hq : q.isAbsolute = false) :
    ((ofString s).join q).isText = q.isText := by
  have hgap : ∃ g, (ofString s).gap = Text.bytes g := by
    unfold gap
    split
    · exact ⟨"", rfl⟩
    · exact ⟨"/", rfl⟩
  obtain ⟨g, hg⟩ := hgap
  have hspelling : ((ofString s).join q).spelling = Text.bytes (s ++ g) ++ q.spelling := by
    rw [spelling_join_gap _ hq, hg, Text.bytes_append]
    rfl
  rw [isText, hspelling, Text.wellFormed_append]
  rfl

/-- The pieces of a path that is text are texts. -/
theorem exists_text_of_mem_pieces {p : Path} (h : p.isText = true) {piece : Bytes}
    (hp : piece ∈ p.pieces) : ∃ s, Text.bytes s = piece := by
  obtain ⟨s, hs⟩ := Text.wellFormed_iff.1 h
  rw [pieces, ← hs, Text.splitOn_bytes] at hp
  obtain ⟨cs, -, rfl⟩ := List.mem_map.1 hp
  exact ⟨_, rfl⟩

/-- The names in a path that is text are texts. -/
theorem exists_text_of_mem_components {p : Path} (h : p.isText = true) {name : Bytes}
    (hn : .name name ∈ p.components) : ∃ s, Text.bytes s = name := by
  rw [components_eq, List.mem_append] at hn
  rcases hn with hn | hn
  · unfold lead at hn
    split at hn
    · simp at hn
    · split at hn <;> simp at hn
  · obtain ⟨piece, hp, hpiece⟩ := List.mem_filterMap.1 hn
    unfold Component.ofPiece? at hpiece
    split at hpiece
    · cases hpiece
    · split at hpiece
      · cases hpiece
      · cases hpiece
        exact exists_text_of_mem_pieces h hp

end Path
end BillOfMaterials
