import HolderDaemon.DeviceConfig

/-!
References to models of runners (`llm/RunnerModelRef.cpp`): a runner id and a model name in one
text, with `::` between them.
-/

set_option autoImplicit false

open Bytes

namespace HolderDaemon

namespace ModelRefs

open DeviceConfig
open Runners (kAutoLocalRunnerId)

def localModelNameFromRef (ref : Option Bytes) (expectedRunnerId : Bytes) : Option Bytes :=
  match ref with
  | none => none
  | some text =>
    if text = [] then none
    else
      match parseRunnerModelRef text with
      | none => some text
      | some (runnerId, modelName) => if runnerId ≠ expectedRunnerId then none else some modelName

/-! Ids -/

def isHexDigit (b : UInt8) : Bool :=
  isDigit b || (65 ≤ b.toNat && b.toNat ≤ 70) || (97 ≤ b.toNat && b.toNat ≤ 102)

/-- Groups of 8, 4, 4, 4 and 12 hexadecimal digits. -/
def isUuid (s : Bytes) : Bool :=
  (s.splitOn 45).map List.length = [8, 4, 4, 4, 12] && s.all fun b => b = 45 || isHexDigit b

/-- The ids that runners have. -/
def IsRunnerId (runnerId : Bytes) : Prop :=
  runnerId = kAutoLocalRunnerId ∨
    ∃ uuid, isUuid uuid = true ∧ runnerId = ascii "manual-" ++ uuid

theorem isHexDigit_ne {b : UInt8} (h : isHexDigit b = true) : b ≠ 58 := by
  rintro rfl
  revert h
  decide

theorem IsRunnerId.noColon {runnerId : Bytes} (h : IsRunnerId runnerId) : 58 ∉ runnerId := by
  rcases h with rfl | ⟨uuid, huuid, rfl⟩
  · decide
  · have hmanual : 58 ∉ ascii "manual-" := by decide
    rw [isUuid, Bool.and_eq_true, List.all_eq_true] at huuid
    refine List.not_mem_append hmanual fun hmem => ?_
    rcases Bool.or_eq_true_iff.mp (huuid.2 58 hmem) with hdash | hhex
    · exact absurd (of_decide_eq_true hdash) (by decide)
    · exact isHexDigit_ne hhex rfl

theorem IsRunnerId.ne_nil {runnerId : Bytes} (h : IsRunnerId runnerId) : runnerId ≠ [] := by
  rcases h with rfl | ⟨uuid, -, rfl⟩
  · decide
  · have hmanual : ascii "manual-" ≠ [] := by decide
    simp [hmanual]

/-! Reading -/

theorem find_kSeparator {runnerId : Bytes} (h : 58 ∉ runnerId) (modelName : Bytes) :
    find kSeparator (runnerId ++ kSeparator ++ modelName) = some runnerId.length := by
  have hsep : kSeparator = [58, 58] := by decide
  rw [hsep]
  induction runnerId with
  | nil => simp [find]
  | cons b runnerId ih =>
    rw [List.mem_cons, not_or] at h
    rw [List.cons_append, List.cons_append, find, if_neg (by simp [h.1]), ih h.2]
    rfl

theorem parse_make {runnerId modelName : Bytes} (hcolon : 58 ∉ runnerId) (hrunner : runnerId ≠ [])
    (hmodel : modelName ≠ []) :
    parseRunnerModelRef (makeRunnerModelRef runnerId modelName) = some (runnerId, modelName) := by
  have hsep : kSeparator.length = 2 := by decide
  have hrunnerLength := List.length_pos_of_ne_nil hrunner
  have hmodelLength := List.length_pos_of_ne_nil hmodel
  have hlength : (runnerId ++ kSeparator ++ modelName).length =
      runnerId.length + 2 + modelName.length := by
    rw [List.length_append, List.length_append, hsep]
  rw [parseRunnerModelRef, makeRunnerModelRef, find_kSeparator hcolon]
  dsimp only
  rw [if_neg (by omega), List.append_assoc, List.take_left, ← List.append_assoc,
    List.drop_left' (by rw [List.length_append, hsep])]

theorem IsRunnerId.autoLocal : IsRunnerId kAutoLocalRunnerId := .inl rfl

theorem parse_make_autoLocal {modelName : Bytes} (h : modelName ≠ []) :
    parseRunnerModelRef (makeRunnerModelRef kAutoLocalRunnerId modelName) =
      some (kAutoLocalRunnerId, modelName) :=
  parse_make IsRunnerId.autoLocal.noColon IsRunnerId.autoLocal.ne_nil h

/-- The model name of a reference is a part of it. -/
theorem length_lt_of_parse {ref runnerId modelName : Bytes}
    (h : parseRunnerModelRef ref = some (runnerId, modelName)) : modelName.length < ref.length := by
  unfold parseRunnerModelRef at h
  split at h
  · cases h
  · rename_i pos _
    split at h
    · cases h
    · cases h
      rw [List.length_drop]
      omega

theorem localModelName_normalize_iff {modelName : Bytes} (h : modelName ≠ []) :
    localModelNameFromRef (some (normalizeLocalRunnerModelRef modelName)) kAutoLocalRunnerId =
        some modelName ↔ parseRunnerModelRef modelName = none := by
  rw [localModelNameFromRef, if_neg (normalize_ne_nil h), normalizeLocalRunnerModelRef, if_neg h]
  cases hparse : parseRunnerModelRef modelName with
  | none =>
    rw [Option.isSome_none, if_neg Bool.false_ne_true, parse_make_autoLocal h]
    simp
  | some parsed =>
    obtain ⟨runnerId, inner⟩ := parsed
    rw [Option.isSome_some, if_pos rfl, hparse]
    have hshort := length_lt_of_parse hparse
    refine iff_of_false (fun hsame => ?_) (by simp)
    dsimp only at hsame
    split at hsame
    · cases hsame
    · rw [Option.some.inj hsame] at hshort
      exact Nat.lt_irrefl _ hshort

/-- References are read as what they were made of, normalising one again changes nothing, and a
model name comes back from its normalised reference unless it is a reference itself. -/
theorem refs_round_trip :
    (∀ runnerId modelName, IsRunnerId runnerId → modelName ≠ [] →
      parseRunnerModelRef (makeRunnerModelRef runnerId modelName) = some (runnerId, modelName)) ∧
    (∀ ref, normalizeLocalRunnerModelRef (normalizeLocalRunnerModelRef ref) =
      normalizeLocalRunnerModelRef ref) ∧
    ∀ modelName, modelName ≠ [] →
      (localModelNameFromRef (some (normalizeLocalRunnerModelRef modelName)) kAutoLocalRunnerId =
        some modelName ↔ parseRunnerModelRef modelName = none) :=
  ⟨fun _ _ hid hmodel => parse_make hid.noColon hid.ne_nil hmodel, normalize_normalize,
    fun _ hmodel => localModelName_normalize_iff hmodel⟩

/-- A configured model name with `::` in it, which is taken for a model of another runner. -/
theorem name_taken_for_ref :
    ∃ row, setLocalModels (some (ascii "org::phi")) none none 5 = some row ∧
      (readConfig row).fastModel = some (normalizeLocalRunnerModelRef (ascii "org::phi")) ∧
      localModelNameFromRef (some (normalizeLocalRunnerModelRef (ascii "org::phi")))
        kAutoLocalRunnerId ≠ some (ascii "org::phi") :=
  ⟨_, rfl, by decide, by decide⟩

end ModelRefs

end HolderDaemon
