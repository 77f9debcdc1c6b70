import BillOfMaterials.Json
import BillOfMaterials.Proofs.Replacing
import BillOfMaterials.TokenClaim

/-!
# Presence of claims

A requirement asks a token for one name and takes from the answer only that there is one. So of a
token nothing counts but the names of its claims: neither their values, nor whether a value is null,
nor the way in which the token keeps them. The text that it reports is the template cut at its gaps,
with the name between the pieces. The pieces are the same for every name, so a name that holds a
gap, or makes one together with the text around it, is not filled in once more.
-/
namespace BillOfMaterials

/-! ## Names of a token -/

section Kept

variable {ν : Type} (name : String)

theorem isSome_claim?_hashed {hasher : Hashable String} (token : Std.HashMap String ν) :
    (ClaimSource.claim? token name).isSome ↔ name ∈ token.keys := by
  rw [Std.HashMap.mem_keys, Std.HashMap.mem_iff_isSome_getElem?]
  rfl

theorem isSome_claim?_ordered (token : Std.TreeMap String ν) :
    (ClaimSource.claim? token name).isSome ↔ name ∈ token.keys := by
  rw [Std.TreeMap.mem_keys, Std.TreeMap.mem_iff_isSome_getElem?]
  rfl

theorem isSome_claim?_listed (token : ClaimList ν) :
    (ClaimSource.claim? token name).isSome ↔ name ∈ token.claims.map Prod.fst := by
  change (token.claims.lookup name).isSome ↔ _
  rw [List.lookup_isSome_iff]
  simp

end Kept

/-- The ways in which a token keeps its claims. -/
inductive Storage where
  | hashed (hasher : Hashable String)
  | ordered
  | listed
  | reference (inner : Storage)

namespace Storage

variable {ν : Type}

/-- The tokens that keep their claims in one way, with values in `ν`. -/
def Token (ν : Type) : Storage → Type
  | hashed hasher => @Std.HashMap String ν _ hasher
  | ordered => Std.TreeMap String ν
  | listed => ClaimList ν
  | reference inner => TokenRef (inner.Token ν)

instance source : (kind : Storage) → ClaimSource (kind.Token ν) ν
  | hashed _ => inferInstanceAs (ClaimSource (Std.HashMap String ν) ν)
  | ordered => inferInstanceAs (ClaimSource (Std.TreeMap String ν) ν)
  | listed => inferInstanceAs (ClaimSource (ClaimList ν) ν)
  | reference inner =>
    have := inner.source
    inferInstanceAs (ClaimSource (TokenRef (inner.Token ν)) ν)

/-- The names under which a token keeps values. -/
def names : (kind : Storage) → kind.Token ν → List String
  | hashed _, token => Std.HashMap.keys token
  | ordered, token => Std.TreeMap.keys token
  | listed, token => (ClaimList.claims token).map Prod.fst
  | reference inner, token => inner.names (TokenRef.referent token)

theorem isSome_claim?_iff (kind : Storage) (token : kind.Token ν) (name : String) :
    (ClaimSource.claim? token name).isSome ↔ name ∈ kind.names token := by
  induction kind with
  | hashed hasher => exact isSome_claim?_hashed name token
  | ordered => exact isSome_claim?_ordered name token
  | listed => exact isSome_claim?_listed name token
  | reference inner ih => exact ih (TokenRef.referent token)

end Storage

namespace ClaimRequirement

/-! ## What a requirement finds -/

section Check

variable {τ σ ν μ : Type} [ClaimSource τ ν] [ClaimSource σ μ] {r : ClaimRequirement} {token : τ}
  {other : σ}

theorem check_eq_ok_iff : r.check token = .ok () ↔ r.holds token = true := by
  cases h : r.holds token <;> simp [check, h]

theorem check_eq_error_iff {fault : AbsentClaim} :
    r.check token = .error fault ↔ r.holds token = false ∧ fault = ⟨r.name, r.message⟩ := by
  cases h : r.holds token <;> simp [check, h, eq_comm]

/-- A check sees of a token only whether the requirement holds. -/
theorem check_congr (h : r.holds token = r.holds other) : r.check token = r.check other := by
  rw [check, check, h]

end Check

theorem holds_iff {kind : Storage} {ν : Type} {token : kind.Token ν} {r : ClaimRequirement} :
    r.holds token = true ↔ r.name ∈ kind.names token :=
  kind.isSome_claim?_iff token r.name

/-! ## What a requirement reports -/

/-- The text has a gap for the name. -/
def HasGap (text : String) : Prop := ∃ before after, text = before ++ placeholder ++ after

theorem hasGap_iff {text : String} : HasGap text ↔ placeholder.toList <:+: text.toList := by
  constructor
  · rintro ⟨before, after, rfl⟩
    exact ⟨before.toList, after.toList, by simp only [String.toList_append]⟩
  · rintro ⟨before, after, htext⟩
    refine ⟨.ofList before, .ofList after, ?_⟩
    rw [← String.toList_inj, ← htext]
    simp only [String.toList_append, String.toList_ofList]

instance {text : String} : Decidable (HasGap text) := decidable_of_iff _ hasGap_iff.symm

/-- The brace that opens a gap stands in it once. -/
theorem placeholder_opens :
    ∃ word, placeholder.toList = '\x7b' :: word ∧ '\x7b' ∉ word :=
  ⟨_, rfl, by decide⟩

theorem placeholder_ne_nil : placeholder.toList ≠ [] := by decide

theorem replaces_message (name template : String) :
    Text.Replaces placeholder.toList name.toList template.toList
      (message ⟨name, template⟩).toList := by
  rw [message, Text.replace, String.toList_ofList]
  exact Text.replaces_replaceAll placeholder_ne_nil _ _

theorem message_eq_of_replaces {name template text : String}
    (h : Text.Replaces placeholder.toList name.toList template.toList text.toList) :
    message ⟨name, template⟩ = text := by
  rw [← String.toList_inj]
  exact (replaces_message name template).unique placeholder_ne_nil h

/-- The first gap is filled with the name, and the pass goes on behind it. -/
theorem message_gap (name : String) {before : String} (after : String) (hfree : ¬HasGap before) :
    message ⟨name, before ++ placeholder ++ after⟩ = before ++ name ++ message ⟨name, after⟩ := by
  obtain ⟨word, hopens, honce⟩ := placeholder_opens
  rw [hasGap_iff, hopens] at hfree
  have hbehind := Text.Replaces.hit (replaces_message name after)
  apply message_eq_of_replaces
  simp only [String.toList_append, List.append_assoc]
  rw [hopens] at hbehind ⊢
  exact hbehind.append_free honce (by simp) hfree

theorem message_of_free (name : String) {template : String} (hfree : ¬HasGap template) :
    message ⟨name, template⟩ = template :=
  message_eq_of_replaces (Text.replaces_self (mt hasGap_iff.2 hfree))

/-- The pieces between which the name is put are those of the template, whatever the name is. -/
theorem message_pieces (template : String) :
    ∃ pieces, template = Text.join placeholder pieces ∧ (∀ piece ∈ pieces, ¬HasGap piece) ∧
      ∀ name, message ⟨name, template⟩ = Text.join name pieces := by
  obtain ⟨piece, pieces, htemplate, hfree, hpass⟩ :=
    Text.exists_pieces placeholder_ne_nil template.toList
  have htexts : ((piece :: pieces).map String.ofList).map String.toList = piece :: pieces := by
    rw [List.map_map, Function.comp_def]
    simp only [String.toList_ofList, List.map_id']
  refine ⟨(piece :: pieces).map String.ofList, ?_, ?_, fun name => ?_⟩
  · rw [← String.toList_inj, Text.join, String.toList_ofList, htexts, htemplate]
  · intro text htext
    obtain ⟨cs, hcs, rfl⟩ := List.mem_map.1 htext
    rw [hasGap_iff, String.toList_ofList]
    exact hfree cs hcs
  · apply message_eq_of_replaces
    rw [Text.join, String.toList_ofList, htexts]
    exact hpass name.toList

/-! ## Names decide -/

/-- A requirement judges every two tokens with the same names alike, in whatever way they keep their
claims and whatever the values are. It fails exactly where its name is not among them, and tells
that name with the text of the template, in which gaps are filled in one pass from left to right. -/
theorem judges_by_names (r : ClaimRequirement) :
    (∀ (kind kind' : Storage) (ν ν' : Type) (token : kind.Token ν) (other : kind'.Token ν'),
      (∀ name, name ∈ kind.names token ↔ name ∈ kind'.names other) →
        r.holds token = r.holds other ∧ r.check token = r.check other) ∧
    (∀ (kind : Storage) (ν : Type) (token : kind.Token ν),
      (r.check token = .ok () ↔ r.name ∈ kind.names token) ∧
      ∀ fault, r.check token = .error fault ↔
        r.name ∉ kind.names token ∧ fault.name = r.name ∧ fault.message = r.message) ∧
    (∀ before after, ¬HasGap before →
      message ⟨r.name, before ++ "\x7bvalue\x7d" ++ after⟩ =
        before ++ r.name ++ message ⟨r.name, after⟩) ∧
    (¬HasGap r.template → r.message = r.template) ∧
    ∃ pieces, r.template = Text.join "\x7bvalue\x7d" pieces ∧ (∀ piece ∈ pieces, ¬HasGap piece) ∧
      ∀ name, message ⟨name, r.template⟩ = Text.join name pieces := by
  refine ⟨fun kind kind' ν ν' token other hnames => ?_, fun kind ν token => ⟨?_, fun fault => ?_⟩,
    fun before after hfree => message_gap r.name after hfree, message_of_free r.name,
    message_pieces r.template⟩
  · have hholds : r.holds token = r.holds other := by
      rw [Bool.eq_iff_iff, holds_iff, holds_iff, hnames]
    exact ⟨hholds, check_congr hholds⟩
  · rw [check_eq_ok_iff, holds_iff]
  · obtain ⟨name, message⟩ := fault
    rw [check_eq_error_iff, ← Bool.not_eq_true, holds_iff, AbsentClaim.mk.injEq]

/-- A token with a claim whose value is null. -/
def issued : Std.HashMap String Json := .ofList [("sub", .string "alice"), ("exp", .null)]

/-- A reference to a token with the names of `issued` and other values. -/
def relayed : TokenRef (ClaimList Json) := ⟨⟨[("exp", .number "1"), ("sub", .null)]⟩⟩

theorem names_issued (name : String) :
    name ∈ Storage.names (.hashed inferInstance) issued ↔ name ∈ ["sub", "exp"] := by
  change name ∈ issued.keys ↔ _
  rw [Std.HashMap.mem_keys, issued, Std.HashMap.mem_ofList]
  simp

/-- The name completes a gap with the brace before it, and the gap stays as it is. -/
theorem twins_judged_alike :
    (∀ name, name ∈ Storage.names (.hashed inferInstance) issued ↔
      name ∈ Storage.names (.reference .listed) relayed) ∧
      ¬HasGap "\x7b" ∧ ¬HasGap "" ∧
      check ⟨"sub", ""⟩ relayed = .ok () ∧
      let r : ClaimRequirement := ⟨"value\x7d", "\x7b\x7bvalue\x7d"⟩
      r.check issued = r.check relayed ∧
        r.check relayed = .error ⟨"value\x7d", "\x7bvalue\x7d"⟩ := by
  have hnames (name : String) : name ∈ Storage.names (.hashed inferInstance) issued ↔
      name ∈ Storage.names (.reference .listed) relayed := by
    rw [names_issued]
    exact (List.Perm.swap "exp" "sub" []).mem_iff
  have hbrace : ¬HasGap "\x7b" := by decide +kernel
  have hnone : ¬HasGap "" := by decide +kernel
  obtain ⟨-, hsub, -⟩ := judges_by_names ⟨"sub", ""⟩
  have hnull := (hsub (.reference .listed) Json relayed).1.2 (by decide)
  refine ⟨hnames, hbrace, hnone, hnull, ?_⟩
  intro r
  obtain ⟨hsame, hjudged, hgap, -, -⟩ := judges_by_names r
  obtain ⟨-, -, -, hfree, -⟩ := judges_by_names ⟨r.name, ""⟩
  have hmessage : r.message = "\x7bvalue\x7d" := by
    calc r.message
        = "\x7b" ++ r.name ++ message ⟨r.name, ""⟩ := hgap "\x7b" "" hbrace
      _ = "\x7b" ++ r.name ++ "" := by rw [hfree hnone]
      _ = "\x7bvalue\x7d" := by decide
  have habsent : r.name ∉ Storage.names (.reference .listed) relayed := by decide
  obtain ⟨-, hfails⟩ := hjudged (.reference .listed) Json relayed
  obtain ⟨-, halike⟩ := hsame (.hashed inferInstance) (.reference .listed) Json Json issued relayed
    hnames
  exact ⟨halike, (hfails _).2 ⟨habsent, rfl, hmessage.symm⟩⟩

end ClaimRequirement
end BillOfMaterials
