import HolderDaemon.EventService
import HolderDaemon.QueryFields

/-!
Percent codecs: the encoders of `history_url` (`api/support/EventService.cpp`), of the command line
(`cli/commands/Support.cpp`) and of the OAuth forms (`storage/google/GoogleOAuth.cpp`), and what
`decode` of the event service and `percent_decode` of the OAuth callbacks make of them.
-/

set_option autoImplicit false

open Bytes

namespace HolderDaemon

namespace PercentCodecs

open EventService (hexUpper historyUrl unreserved)
open GoogleDriveOAuth (hexValue percentDecode)
open QueryFields (decode fieldName fieldText)
open QueryValues (isSafe urlEncodeComponent)

/-- The encoders, which differ in the bytes that they leave. -/
def percentEncode (safe : UInt8 → Bool) (value : Bytes) : Bytes :=
  value.flatMap fun b =>
    if safe b then [b] else [37, hexUpper (b.toNat / 16), hexUpper (b.toNat % 16)]

/-- `url_encode` of `GoogleOAuth.cpp`, and the same function of `DriveApi.cpp`. -/
def urlEncode (value : Bytes) : Bytes := percentEncode isSafe value

def formEncode (fields : List (Bytes × Bytes)) : Bytes :=
  fields.foldl
    (fun out field =>
      (if out ≠ [] then out ++ ascii "&" else out) ++
        (urlEncode field.1 ++ ascii "=" ++ urlEncode field.2)) []

theorem historyUrl_eq (project : Bytes) :
    historyUrl project =
      ascii "/projects/" ++ percentEncode unreserved project ++ ascii "/history" := rfl

theorem urlEncodeComponent_eq (value : Bytes) :
    urlEncodeComponent value = percentEncode isSafe value := rfl

/-- The loop of `percent_decode` from an index on; none where it reads past the end. -/
def percentDecodeAt (value : Bytes) (i : Nat) : Option Bytes :=
  if i < value.length then do
    let b ← value[i]?
    if b = 37 ∧ i + 2 < value.length then
      let high ← value[i + 1]?
      let low ← value[i + 2]?
      match hexValue high, hexValue low with
      | some h, some l => (percentDecodeAt value (i + 3)).map fun out => (16 * h + l) :: out
      | _, _ => (percentDecodeAt value (i + 1)).map fun out => b :: out
    else (percentDecodeAt value (i + 1)).map fun out => (if b = 43 then 32 else b) :: out
  else some []
termination_by value.length - i

/-! Bytes -/

/-- The safe bytes mean nothing to a decoder. -/
def LeavesLiterals (safe : UInt8 → Bool) : Prop := ∀ b, safe b = true → b ≠ 37 ∧ b ≠ 43

theorem hexValue_hexUpper {n : Nat} (h : n < 16) :
    hexValue (hexUpper n) = some (UInt8.ofNat n) := by
  have hall : ∀ n < 16, hexValue (hexUpper n) = some (UInt8.ofNat n) := by decide
  exact hall n h

theorem byte_of_halves (b : UInt8) :
    16 * UInt8.ofNat (b.toNat / 16) + UInt8.ofNat (b.toNat % 16) = b := by
  have hlt : b.toNat < 256 := b.toNat_lt
  refine UInt8.toNat_inj.mp ?_
  simp only [UInt8.toNat_add, UInt8.toNat_mul, UInt8.toNat_ofNat', UInt8.reduceToNat]
  omega

theorem halves_lt (b : UInt8) : b.toNat / 16 < 16 ∧ b.toNat % 16 < 16 := by
  have hlt : b.toNat < 256 := b.toNat_lt
  omega

theorem leavesLiterals_isSafe : LeavesLiterals isSafe := by
  rintro b h
  refine ⟨?_, ?_⟩ <;> rintro rfl <;> revert h <;> decide

theorem leavesLiterals_unreserved : LeavesLiterals unreserved := by
  rintro b h
  refine ⟨?_, ?_⟩ <;> rintro rfl <;> revert h <;> decide

@[simp] theorem percentEncode_nil (safe : UInt8 → Bool) : percentEncode safe [] = [] := rfl

theorem percentEncode_cons (safe : UInt8 → Bool) (b : UInt8) (value : Bytes) :
    percentEncode safe (b :: value) =
      (if safe b then [b] else [37, hexUpper (b.toNat / 16), hexUpper (b.toNat % 16)]) ++
        percentEncode safe value := rfl

theorem decode_escape {high low : UInt8} {h l : UInt8} (hhigh : hexValue high = some h)
    (hlow : hexValue low = some l) (rest : Bytes) :
    decode (37 :: high :: low :: rest) =
      if 16 * h + l = 0 then none else (decode rest).map fun out => (16 * h + l) :: out := by
  rw [decode, hhigh, hlow]

theorem decode_literal {b : UInt8} (h : b ≠ 37) (rest : Bytes) :
    decode (b :: rest) = (decode rest).map fun out => (if b = 43 then 32 else b) :: out := by
  rw [decode]
  · rintro _ _ _ rfl
    exact absurd rfl h
  · rintro rfl
    exact absurd rfl h

theorem percentDecode_escape {high low : UInt8} {h l : UInt8} (hhigh : hexValue high = some h)
    (hlow : hexValue low = some l) (rest : Bytes) :
    percentDecode (37 :: high :: low :: rest) = (16 * h + l) :: percentDecode rest := by
  rw [percentDecode, hhigh, hlow]

theorem percentDecode_literal {b : UInt8} (h : b ≠ 37) (rest : Bytes) :
    percentDecode (b :: rest) = (if b = 43 then 32 else b) :: percentDecode rest := by
  rw [percentDecode]
  rintro _ _ _ rfl
  exact absurd rfl h

/-! What is encoded -/

section Encoded
variable {safe : UInt8 → Bool}

theorem decode_percentEncode (hsafe : LeavesLiterals safe) {value : Bytes} (h : 0 ∉ value) :
    decode (percentEncode safe value) = some value := by
  induction value with
  | nil => rfl
  | cons b value ih =>
    rw [List.mem_cons, not_or] at h
    rw [percentEncode_cons]
    split
    · rename_i hb
      rw [List.singleton_append, decode_literal (hsafe b hb).1, ih h.2, if_neg (hsafe b hb).2]
      rfl
    · rw [List.cons_append, List.cons_append, List.cons_append, List.nil_append,
        decode_escape (hexValue_hexUpper (halves_lt b).1) (hexValue_hexUpper (halves_lt b).2),
        byte_of_halves, if_neg (Ne.symm h.1), ih h.2]
      rfl

theorem percentDecode_percentEncode (hsafe : LeavesLiterals safe) (value : Bytes) :
    percentDecode (percentEncode safe value) = value := by
  induction value with
  | nil => rfl
  | cons b value ih =>
    rw [percentEncode_cons]
    split
    · rename_i hb
      rw [List.singleton_append, percentDecode_literal (hsafe b hb).1, ih, if_neg (hsafe b hb).2]
    · rw [List.cons_append, List.cons_append, List.cons_append, List.nil_append,
        percentDecode_escape (hexValue_hexUpper (halves_lt b).1)
          (hexValue_hexUpper (halves_lt b).2), byte_of_halves, ih]

end Encoded

/-! What is refused -/

/-- An escape is whole after its percent sign. -/
def TwoDigits (after : Bytes) : Prop :=
  ∃ high low rest, after = high :: low :: rest ∧
    (hexValue high).isSome = true ∧ (hexValue low).isSome = true

/-- An escape of a NUL. -/
def NulDigits (after : Bytes) : Prop := ∃ rest, after = 48 :: 48 :: rest

theorem hexValue_zero {b : UInt8} : hexValue b = some 0 ↔ b = 48 := by
  constructor
  · intro h
    unfold hexValue at h
    grind
  · rintro rfl
    decide

theorem hexValue_lt {b h : UInt8} (hb : hexValue b = some h) : h.toNat < 16 := by
  unfold hexValue at hb
  split_ifs at hb with hdecimal hupper hlower
  · cases hb
    rw [UInt8.toNat_sub_of_le b 48 hdecimal.1]
    have hle := UInt8.le_iff_toNat_le.mp hdecimal.2
    simp only [UInt8.reduceToNat] at hle ⊢
    omega
  · cases hb
    rw [UInt8.toNat_sub_of_le b 55 (UInt8.le_trans (by decide) hupper.1)]
    have hle := UInt8.le_iff_toNat_le.mp hupper.2
    simp only [UInt8.reduceToNat] at hle ⊢
    omega
  · cases hb
    rw [UInt8.toNat_sub_of_le b 87 (UInt8.le_trans (by decide) hlower.1)]
    have hle := UInt8.le_iff_toNat_le.mp hlower.2
    simp only [UInt8.reduceToNat] at hle ⊢
    omega

theorem escape_eq_zero_iff {high low h l : UInt8} (hhigh : hexValue high = some h)
    (hlow : hexValue low = some l) : 16 * h + l = 0 ↔ high = 48 ∧ low = 48 := by
  have hh := hexValue_lt hhigh
  have hl := hexValue_lt hlow
  have hzero : 16 * h + l = 0 ↔ h = 0 ∧ l = 0 := by
    rw [← UInt8.toNat_inj, ← UInt8.toNat_inj, ← UInt8.toNat_inj]
    simp only [UInt8.toNat_add, UInt8.toNat_mul, UInt8.reduceToNat]
    omega
  rw [hzero, ← hexValue_zero, ← hexValue_zero, hhigh, hlow, Option.some_inj, Option.some_inj]

/-- A percent sign in the text without its two digits, or with those of a NUL. -/
def Malformed (s : Bytes) : Prop :=
  ∃ before after, s = before ++ 37 :: after ∧ (¬ TwoDigits after ∨ NulDigits after)

theorem hexValue_percent : hexValue 37 = none := by decide

theorem ne_percent {b h : UInt8} (hb : hexValue b = some h) : b ≠ 37 := by
  rintro rfl
  rw [hexValue_percent] at hb
  cases hb

theorem not_malformed_nil : ¬ Malformed [] := by
  rintro ⟨before, after, h, -⟩
  cases before <;> cases h

theorem malformed_cons (b : UInt8) (s : Bytes) :
    Malformed (b :: s) ↔ (b = 37 ∧ (¬ TwoDigits s ∨ NulDigits s)) ∨ Malformed s := by
  constructor
  · rintro ⟨before, after, h, hbad⟩
    cases before with
    | nil =>
      cases h
      exact .inl ⟨rfl, hbad⟩
    | cons c before =>
      obtain ⟨rfl, rfl⟩ := List.cons.inj h
      exact .inr ⟨before, after, rfl, hbad⟩
  · rintro (⟨rfl, hbad⟩ | ⟨before, after, rfl, hbad⟩)
    · exact ⟨[], s, rfl, hbad⟩
    · exact ⟨b :: before, after, rfl, hbad⟩

theorem malformed_literal {b : UInt8} (h : b ≠ 37) (s : Bytes) :
    Malformed (b :: s) ↔ Malformed s := by
  rw [malformed_cons]
  exact or_iff_right fun hboth => h hboth.1

theorem twoDigits_cons {high low : UInt8} {rest : Bytes} :
    TwoDigits (high :: low :: rest) ↔
      (hexValue high).isSome = true ∧ (hexValue low).isSome = true := by
  constructor
  · rintro ⟨_, _, _, h, hboth⟩
    cases h
    exact hboth
  · exact fun hboth => ⟨high, low, rest, rfl, hboth⟩

theorem not_twoDigits_of_length {after : Bytes} (h : after.length < 2) : ¬ TwoDigits after := by
  rintro ⟨high, low, rest, rfl, -⟩
  simp only [List.length_cons] at h
  omega

theorem decode_eq_none_of_not_twoDigits {after : Bytes} (h : ¬ TwoDigits after) :
    decode (37 :: after) = none := by
  match after, h with
  | [], _ => rfl
  | [_], _ => rfl
  | high :: low :: rest, h =>
    rw [twoDigits_cons] at h
    rw [decode]
    split
    · rename_i hhigh hlow
      exact absurd ⟨by rw [hhigh]; rfl, by rw [hlow]; rfl⟩ h
    · rfl

/-- `decode` refuses exactly what has a malformed escape. -/
theorem decode_eq_none_iff (s : Bytes) : decode s = none ↔ Malformed s := by
  induction hn : s.length using Nat.strong_induction_on generalizing s with
  | _ n ih =>
    subst hn
    cases s with
    | nil => exact iff_of_false (by simp [decode]) not_malformed_nil
    | cons b s =>
      by_cases hb : b = 37
      · subst hb
        by_cases htwo : TwoDigits s
        · obtain ⟨high, low, rest, rfl, hhigh, hlow⟩ := htwo
          obtain ⟨h, hhigh⟩ := Option.isSome_iff_exists.mp hhigh
          obtain ⟨l, hlow⟩ := Option.isSome_iff_exists.mp hlow
          have hrest := ih rest.length (by simp only [List.length_cons]; omega) rest rfl
          have htwo : TwoDigits (high :: low :: rest) := by
            rw [twoDigits_cons, hhigh, hlow]
            exact ⟨rfl, rfl⟩
          have hnul : NulDigits (high :: low :: rest) ↔ 16 * h + l = 0 := by
            rw [escape_eq_zero_iff hhigh hlow]
            constructor
            · rintro ⟨_, hcons⟩
              cases hcons
              exact ⟨rfl, rfl⟩
            · rintro ⟨rfl, rfl⟩
              exact ⟨rest, rfl⟩
          rw [decode_escape hhigh hlow, malformed_cons, malformed_literal (ne_percent hhigh),
            malformed_literal (ne_percent hlow), ← hrest, hnul]
          split
          · rename_i hzero
            exact iff_of_true rfl (.inl ⟨rfl, .inr hzero⟩)
          · rename_i hzero
            rw [Option.map_eq_none_iff]
            exact (or_iff_right fun hbad => hbad.2.elim (· htwo) hzero).symm
        · rw [decode_eq_none_of_not_twoDigits htwo, malformed_cons]
          exact iff_of_true rfl (.inl ⟨rfl, .inl htwo⟩)
      · rw [decode_literal hb, malformed_literal hb, Option.map_eq_none_iff]
        exact ih s.length (Nat.lt_succ_self _) s rfl

/-! What is left as it is -/

theorem percentDecode_of_not_twoDigits {after : Bytes} (h : ¬ TwoDigits after) :
    percentDecode (37 :: after) = 37 :: percentDecode after := by
  match after, h with
  | [], _ => rfl
  | [_], _ => rfl
  | high :: low :: rest, h =>
    rw [twoDigits_cons] at h
    rw [percentDecode]
    split
    · rename_i hhigh hlow
      exact absurd ⟨by rw [hhigh]; rfl, by rw [hlow]; rfl⟩ h
    · rfl

/-- A percent sign is in no escape before it. -/
theorem percentDecode_append (before after : Bytes) :
    percentDecode (before ++ 37 :: after) =
      percentDecode before ++ percentDecode (37 :: after) := by
  induction hn : before.length using Nat.strong_induction_on generalizing before with
  | _ n ih =>
    subst hn
    cases before with
    | nil => rfl
    | cons b before =>
      by_cases hb : b = 37
      · subst hb
        by_cases htwo : TwoDigits before
        · obtain ⟨high, low, rest, rfl, hhigh, hlow⟩ := htwo
          obtain ⟨h, hhigh⟩ := Option.isSome_iff_exists.mp hhigh
          obtain ⟨l, hlow⟩ := Option.isSome_iff_exists.mp hlow
          have hrest := ih rest.length (by simp only [List.length_cons]; omega) rest rfl
          rw [List.cons_append, List.cons_append, List.cons_append,
            percentDecode_escape hhigh hlow, percentDecode_escape hhigh hlow, hrest,
            List.cons_append]
        · have hlong : ¬ TwoDigits (before ++ 37 :: after) := by
            match before, htwo with
            | [], _ =>
              rintro ⟨_, _, _, hcons, hhigh, -⟩
              cases hcons
              rw [hexValue_percent] at hhigh
              cases hhigh
            | [_], _ =>
              rintro ⟨_, _, _, hcons, -, hlow⟩
              cases hcons
              rw [hexValue_percent] at hlow
              cases hlow
            | high :: low :: rest, htwo =>
              rw [List.cons_append, List.cons_append, twoDigits_cons]
              rwa [twoDigits_cons] at htwo
          rw [List.cons_append, percentDecode_of_not_twoDigits hlong,
            percentDecode_of_not_twoDigits htwo, ih before.length (Nat.lt_succ_self _) before rfl,
            List.cons_append]
      · rw [List.cons_append, percentDecode_literal hb, percentDecode_literal hb,
          ih before.length (Nat.lt_succ_self _) before rfl, List.cons_append]

/-- The loop stays inside the text, and gives what the text decodes to. -/
theorem percentDecodeAt_eq (value : Bytes) (i : Nat) :
    percentDecodeAt value i = some (percentDecode (value.drop i)) := by
  induction hn : value.length - i using Nat.strong_induction_on generalizing i with
  | _ n ih =>
    subst hn
    rw [percentDecodeAt]
    by_cases hi : i < value.length
    · have hone := ih (value.length - (i + 1)) (by omega) (i + 1) rfl
      rw [if_pos hi, List.getElem?_eq_getElem hi, Option.bind_eq_bind, Option.bind_some,
        List.drop_eq_getElem_cons hi]
      generalize value[i] = b at *
      split
      · rename_i hescape
        obtain ⟨rfl, hroom⟩ := hescape
        have hnext : i + 1 < value.length := by omega
        have hthree := ih (value.length - (i + 3)) (by omega) (i + 3) rfl
        rw [List.getElem?_eq_getElem hnext, List.getElem?_eq_getElem hroom, Option.bind_some,
          Option.bind_some, hone, hthree, List.drop_eq_getElem_cons hnext,
          List.drop_eq_getElem_cons hroom, percentDecode]
        cases hexValue value[i + 1] <;> cases hexValue value[i + 2] <;> rfl
      · rename_i hescape
        rw [hone, Option.map_some]
        by_cases hb : b = 37
        · subst hb
          have hshort : (value.drop (i + 1)).length < 2 := by
            rw [List.length_drop]
            have hroom := not_and.mp hescape rfl
            omega
          rw [percentDecode_of_not_twoDigits (not_twoDigits_of_length hshort)]
          rfl
        · rw [percentDecode_literal hb]
    · rw [if_neg hi, List.drop_eq_nil_iff.mpr (Nat.le_of_not_lt hi), percentDecode]

/-! Forms -/

def formField (field : Bytes × Bytes) : Bytes :=
  urlEncode field.1 ++ ascii "=" ++ urlEncode field.2

/-- The fields of a form, as a receiver reads them. -/
def readForm (form : Bytes) : List (Bytes × Bytes) :=
  if form = [] then []
  else
    (form.splitOn 38).map fun field =>
      (percentDecode (fieldName field), percentDecode (fieldText field))

theorem formField_ne_nil (field : Bytes × Bytes) : formField field ≠ [] := by
  have hequals : ascii "=" ≠ [] := by decide
  simp [formField, hequals]

theorem formEncode_cons (field : Bytes × Bytes) (fields : List (Bytes × Bytes)) :
    formEncode (field :: fields) =
      formField field ++ fields.flatMap fun other => 38 :: formField other := by
  have hmore : ∀ (fields : List (Bytes × Bytes)) (out : Bytes), out ≠ [] →
      fields.foldl (fun out field => (if out ≠ [] then out ++ ascii "&" else out) ++
        (urlEncode field.1 ++ ascii "=" ++ urlEncode field.2)) out =
      out ++ fields.flatMap fun other => 38 :: formField other := by
    intro fields
    induction fields with
    | nil => exact fun out _ => (List.append_nil out).symm
    | cons field fields ih =>
      intro out hout
      have hand : ascii "&" = [38] := by decide
      rw [List.foldl_cons, if_pos hout, ih _ (by simp [hout]), List.flatMap_cons, hand]
      simp [formField]
  rw [formEncode, List.foldl_cons, if_neg (by simp), List.nil_append]
  exact hmore fields _ (formField_ne_nil field)

theorem plain_urlEncode (value : Bytes) : QueryValues.Plain (urlEncode value) :=
  QueryValues.plain_urlEncodeComponent value

theorem notMem_formField (field : Bytes × Bytes) : 38 ∉ formField field := by
  have hequals : 38 ∉ ascii "=" := by decide
  exact List.not_mem_append (List.not_mem_append (plain_urlEncode _).2 hequals)
    (plain_urlEncode _).2

theorem fieldName_formField (field : Bytes × Bytes) :
    fieldName (formField field) = urlEncode field.1 := by
  have hall : ∀ b ∈ urlEncode field.1, decide (b ≠ 61) = true := fun b hb =>
    decide_eq_true fun heq => (plain_urlEncode field.1).1 (heq ▸ hb)
  have hequals : ascii "=" = [61] := by decide
  rw [fieldName, formField, hequals, List.append_assoc, List.takeWhile_append_of_pos hall,
    List.singleton_append, List.takeWhile_cons_of_neg (by simp), List.append_nil]

theorem fieldText_formField (field : Bytes × Bytes) :
    fieldText (formField field) = urlEncode field.2 := by
  have hall : ∀ b ∈ urlEncode field.1, decide (b ≠ 61) = true := fun b hb =>
    decide_eq_true fun heq => (plain_urlEncode field.1).1 (heq ▸ hb)
  have hequals : ascii "=" = [61] := by decide
  rw [fieldText, formField, hequals, List.append_assoc, List.dropWhile_append_of_pos hall,
    List.singleton_append, List.dropWhile_cons_of_neg (by simp), List.drop_one, List.tail_cons]

theorem splitOn_fields (field : Bytes × Bytes) (fields : List (Bytes × Bytes)) :
    (formField field ++ fields.flatMap fun other => 38 :: formField other).splitOn 38 =
      (field :: fields).map formField := by
  induction fields generalizing field with
  | nil =>
    rw [List.flatMap_nil, List.append_nil, List.splitOn_eq_singleton (notMem_formField field)]
    rfl
  | cons other fields ih =>
    rw [List.flatMap_cons, List.cons_append, QueryFields.splitOn_field (notMem_formField field), ih]
    rfl

theorem readForm_formEncode (fields : List (Bytes × Bytes)) :
    readForm (formEncode fields) = fields := by
  cases fields with
  | nil => rfl
  | cons field fields =>
    rw [formEncode_cons, readForm, if_neg (by simp [formField_ne_nil]), splitOn_fields,
      List.map_map]
    refine (List.map_congr_left fun other _ => ?_).trans (List.map_id _)
    rw [Function.comp_apply, fieldName_formField, fieldText_formField, urlEncode, urlEncode,
      percentDecode_percentEncode leavesLiterals_isSafe,
      percentDecode_percentEncode leavesLiterals_isSafe]
    rfl

/-- What an encoder makes of a text its decoder reads back; the event service refuses exactly the
malformed escapes; `percent_decode` stays inside the text and keeps them as they are; and no two
forms are the same. -/
theorem codecs_agree :
    (∀ project, 0 ∉ project → ∃ encoded,
      historyUrl project = ascii "/projects/" ++ encoded ++ ascii "/history" ∧
        decode encoded = some project) ∧
    (∀ value, 0 ∉ value → decode (urlEncodeComponent value) = some value) ∧
    (∀ value, percentDecode (urlEncode value) = value) ∧
    (∀ encoded, decode encoded = none ↔ Malformed encoded) ∧
    (∀ value, percentDecodeAt value 0 = some (percentDecode value)) ∧
    (∀ before after, ¬ TwoDigits after →
      percentDecode (before ++ 37 :: after) = percentDecode before ++ 37 :: percentDecode after) ∧
    Function.Injective formEncode := by
  refine ⟨fun project h => ⟨_, historyUrl_eq project,
      decode_percentEncode leavesLiterals_unreserved h⟩,
    fun value h => by rw [urlEncodeComponent_eq, decode_percentEncode leavesLiterals_isSafe h],
    percentDecode_percentEncode leavesLiterals_isSafe, decode_eq_none_iff,
    fun value => percentDecodeAt_eq value 0, fun before after h => ?_,
    Function.LeftInverse.injective readForm_formEncode⟩
  rw [percentDecode_append, percentDecode_of_not_twoDigits h]

end PercentCodecs

end HolderDaemon
