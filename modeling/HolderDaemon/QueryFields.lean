import HolderDaemon.QueryValues

/-!
Looking up a query parameter: `query_param_value` searches for `key=` anywhere in the query, and
`parameters` of the event service goes through the fields.
-/

set_option autoImplicit false

open Bytes

namespace HolderDaemon

namespace QueryFields

open GoogleDriveOAuth (afterFirst queryParamValue hexValue)

/-! Fields -/

def fieldName (field : Bytes) : Bytes := field.takeWhile fun b => b ≠ 61

/-- What follows the first `=`; empty where there is none. -/
def fieldText (field : Bytes) : Bytes := (field.dropWhile fun b => b ≠ 61).drop 1

/-- What a lookup is for: the text of the first field that has exactly this name. -/
def fieldValue (query key : Bytes) : Bytes :=
  ((query.splitOn 38).find? fun field => fieldName field = key).elim [] fieldText

/-! `parameters` of the event service -/

/-- `decode`; none where it throws. -/
def decode : Bytes → Option Bytes
  | [] => some []
  | 37 :: high :: low :: rest =>
    match hexValue high, hexValue low with
    | some h, some l =>
      if 16 * h + l = 0 then none else (decode rest).map fun decoded => (16 * h + l) :: decoded
    | _, _ => none
  | 37 :: _ => none
  | b :: rest => (decode rest).map fun decoded => (if b = 43 then 32 else b) :: decoded

/-- The loop over the query stops at its end, also where an `&` stands there. -/
def fieldsOf (query : Bytes) : List Bytes :=
  let fields := query.splitOn 38
  if fields.getLast? = some [] then fields.dropLast else fields

def eventKeys : List Bytes := [ascii "project_id", ascii "last_revision"]

def addParameter (result : List (Bytes × Bytes)) (field : Bytes) : Option (List (Bytes × Bytes)) :=
  match decode (fieldName field), decode (fieldText field) with
  | some key, some value =>
    if key ∉ eventKeys ∨ key ∈ result.map Prod.fst then none else some (result ++ [(key, value)])
  | _, _ => none

/-- `parameters`; none where it throws. -/
def parameters (query : Bytes) : Option (List (Bytes × Bytes)) :=
  (fieldsOf query).foldlM addParameter []

/-- The value of a key of the map; empty where there is none. -/
def parameterValue (params : List (Bytes × Bytes)) (key : Bytes) : Bytes :=
  ((params.find? fun param => param.1 = key).map Prod.snd).getD []

/-! The keys -/

/-- A key that can be told from the text around it. -/
structure IsKey (key : Bytes) : Prop where
  ne_nil : key ≠ []
  no_equals : 61 ∉ key
  no_ampersand : 38 ∉ key

/-- The keys that the routes look up. -/
def routeKeys : List Bytes :=
  ["card_id", "code", "count", "cursor", "error", "from", "include_deleted", "kind", "limit", "mode",
    "name", "offset", "oid", "order", "parent_card_id", "placement_id", "project_id", "q",
    "runner_id", "state", "tag", "thread_id", "to", "type", "updated_after", "updated_before",
    "view"].map ascii

theorem isKey_of_mem_routeKeys {key : Bytes} (h : key ∈ routeKeys) : IsKey key := by
  have hall : ∀ key ∈ routeKeys, key ≠ [] ∧ 61 ∉ key ∧ 38 ∉ key := by decide
  exact ⟨(hall key h).1, (hall key h).2.1, (hall key h).2.2⟩

theorem isKey_of_mem_eventKeys {key : Bytes} (h : key ∈ eventKeys) : IsKey key := by
  have hall : ∀ key ∈ eventKeys, key ≠ [] ∧ 61 ∉ key ∧ 38 ∉ key := by decide
  exact ⟨(hall key h).1, (hall key h).2.1, (hall key h).2.2⟩

/-! The search, field by field -/

section Search
variable {needle : Bytes}

theorem isPrefixOf_field (hneedle : 38 ∉ needle) (field rest : Bytes) :
    needle.isPrefixOf (field ++ 38 :: rest) = needle.isPrefixOf field := by
  rw [Bool.eq_iff_iff, List.isPrefixOf_iff_prefix, List.isPrefixOf_iff_prefix]
  constructor
  · intro h
    by_cases hlength : needle.length ≤ field.length
    · exact List.prefix_of_prefix_length_le h (List.prefix_append _ _) hlength
    · have hlonger : field ++ [38] <+: needle := by
        refine List.prefix_of_prefix_length_le ⟨rest, by simp⟩ h ?_
        rw [List.length_append, List.length_singleton]
        omega
      exact absurd (hlonger.subset (by simp)) hneedle
  · exact fun h => h.trans (List.prefix_append field _)

theorem afterFirst_nil (hne : needle ≠ []) : afterFirst needle [] = none := by
  rw [afterFirst, if_neg hne]

theorem afterFirst_field (hne : needle ≠ []) (hneedle : 38 ∉ needle) (field rest : Bytes) :
    afterFirst needle (field ++ 38 :: rest) =
      match afterFirst needle field with
      | some text => some (text ++ 38 :: rest)
      | none => afterFirst needle rest := by
  induction field with
  | nil =>
    have hnot := isPrefixOf_field hneedle [] rest
    rw [afterFirst_nil hne]
    rw [List.nil_append] at hnot ⊢
    rw [afterFirst, hnot, if_neg]
    rw [List.isPrefixOf_iff_prefix, List.prefix_nil]
    exact hne
  | cons b field ih =>
    have hhere := isPrefixOf_field hneedle (b :: field) rest
    rw [List.cons_append] at hhere ⊢
    rw [afterFirst, hhere, afterFirst]
    split
    · rename_i hprefix
      have hlength := (List.isPrefixOf_iff_prefix.mp hprefix).length_le
      rw [← List.cons_append, List.drop_append_of_le_length hlength]
    · exact ih

/-- A query is one field, or a field before a query. -/
theorem fieldwise {P : Bytes → Prop} (last : ∀ field, 38 ∉ field → P field)
    (more : ∀ field rest, 38 ∉ field → P rest → P (field ++ 38 :: rest)) (query : Bytes) :
    P query := by
  induction hlength : query.length using Nat.strongRecOn generalizing query with
  | ind n ih =>
    by_cases hmem : (38 : UInt8) ∈ query
    · obtain ⟨field, rest, rfl, hnot⟩ := List.eq_append_cons_of_mem hmem
      refine more field rest hnot (ih rest.length ?_ rest rfl)
      rw [← hlength, List.length_append, List.length_cons]
      omega
    · exact last query hmem

theorem splitOn_field {field : Bytes} (h : 38 ∉ field) (rest : Bytes) :
    (field ++ 38 :: rest).splitOn 38 = field :: rest.splitOn 38 :=
  List.splitOn_append_cons_self_of_not_mem h rest

theorem mem_of_afterFirst {s text : Bytes} (h : afterFirst needle s = some text) {b : UInt8}
    (hb : b ∈ text) : b ∈ s := by
  induction s with
  | nil =>
    rw [afterFirst] at h
    split at h
    · rw [← Option.some.inj h] at hb
      exact hb
    · cases h
  | cons c s ih =>
    rw [afterFirst] at h
    split at h
    · rw [← Option.some.inj h] at hb
      exact List.mem_of_mem_drop hb
    · exact .tail c (ih h)

theorem takeWhile_field {text : Bytes} (h : 38 ∉ text) (rest : Bytes) :
    (text ++ 38 :: rest).takeWhile (fun b => decide (b ≠ 38)) = text := by
  have hall : ∀ b ∈ text, decide (b ≠ 38) = true := fun b hb =>
    decide_eq_true fun heq => h (heq ▸ hb)
  rw [List.takeWhile_append_of_pos hall, List.takeWhile_cons_of_neg (by simp), List.append_nil]

/-- The search stops in the first field that holds the needle, and gives the rest of that field. -/
theorem afterFirst_eq_fields (hne : needle ≠ []) (hneedle : 38 ∉ needle) (query : Bytes) :
    (afterFirst needle query).map (List.takeWhile fun b => decide (b ≠ 38)) =
      (query.splitOn 38).findSome? (afterFirst needle) := by
  induction query using fieldwise with
  | last field hfield =>
    rw [List.splitOn_eq_singleton hfield]
    cases htext : afterFirst needle field with
    | none => simp [htext]
    | some text =>
      have hnot : 38 ∉ text := fun hmem => hfield (mem_of_afterFirst htext hmem)
      have htake : text.takeWhile (fun b => decide (b ≠ 38)) = text :=
        List.takeWhile_eq_self_iff.mpr fun b hb => decide_eq_true fun heq => hnot (heq ▸ hb)
      rw [Option.map_some, htake, List.findSome?_cons, htext]
  | more field rest hfield ih =>
    rw [splitOn_field hfield, afterFirst_field hne hneedle, List.findSome?_cons]
    cases htext : afterFirst needle field with
    | none => exact ih
    | some text =>
      have hnot : 38 ∉ text := fun hmem => hfield (mem_of_afterFirst htext hmem)
      dsimp only
      rw [Option.map_some, takeWhile_field hnot]

end Search

/-! Where the first field with `key=` is not the one that is meant -/

/-- `key=` is first found in a field that does not begin with it, or after a field that is the key
alone; `text` is what follows it there. -/
def Misread (query key text : Bytes) : Prop :=
  ∃ before field after, query.splitOn 38 = before ++ field :: after ∧
    (∀ earlier ∈ before, afterFirst (key ++ [61]) earlier = none) ∧
    afterFirst (key ++ [61]) field = some text ∧ (¬ key ++ [61] <+: field ∨ key ∈ before)

theorem queryParamValue_eq_fields {key : Bytes} (h : IsKey key) (query : Bytes) :
    queryParamValue query key =
      ((query.splitOn 38).findSome? (afterFirst (key ++ [61]))).getD [] := by
  have hne : key ++ [61] ≠ [] := List.append_ne_nil_of_right_ne_nil _ (List.cons_ne_nil _ _)
  have hnot : 38 ∉ key ++ [61] := by simp [h.no_ampersand]
  rw [← afterFirst_eq_fields hne hnot, queryParamValue]
  have hneedle : key ++ ascii "=" = key ++ [61] := rfl
  rw [hneedle]
  cases afterFirst (key ++ [61]) query with
  | none => rfl
  | some rest => rfl

theorem queryParamValue_of_misread {query key text : Bytes} (h : IsKey key)
    (hmisread : Misread query key text) : queryParamValue query key = text := by
  obtain ⟨before, field, after, hsplit, hbefore, hfield, -⟩ := hmisread
  rw [queryParamValue_eq_fields h, hsplit, List.findSome?_append,
    List.findSome?_eq_none_iff.mpr hbefore, Option.none_or, List.findSome?_cons, hfield,
    Option.getD_some]

/-- A field without the key before an `=` has that name only where it is the key alone. -/
theorem fieldName_eq_iff {key field : Bytes} (h : IsKey key) :
    fieldName field = key ↔ field = key ∨ key ++ [61] <+: field := by
  constructor
  · intro hname
    have hwhole := List.takeWhile_append_dropWhile (p := fun b => decide (b ≠ 61)) (l := field)
    rw [← fieldName, hname] at hwhole
    cases hrest : field.dropWhile (fun b => decide (b ≠ 61)) with
    | nil =>
      rw [hrest, List.append_nil] at hwhole
      exact .inl hwhole.symm
    | cons b rest =>
      have hb : b = 61 := by
        have hhead := List.head?_dropWhile_not (fun b => decide (b ≠ 61)) field
        rw [hrest] at hhead
        simpa using hhead
      rw [hrest, hb] at hwhole
      exact .inr ⟨rest, by rw [← hwhole]; simp⟩
  · have hall : ∀ b ∈ key, decide (b ≠ 61) = true := fun b hb =>
      decide_eq_true fun heq => h.no_equals (heq ▸ hb)
    rintro (rfl | ⟨rest, rfl⟩)
    · exact List.takeWhile_eq_self_iff.mpr hall
    · rw [fieldName, List.append_assoc, List.takeWhile_append_of_pos hall, List.singleton_append,
        List.takeWhile_cons_of_neg (by simp), List.append_nil]

theorem fieldText_key {key : Bytes} (h : IsKey key) : fieldText key = [] := by
  have hall : ∀ b ∈ key, decide (b ≠ 61) = true := fun b hb =>
    decide_eq_true fun heq => h.no_equals (heq ▸ hb)
  rw [fieldText, List.dropWhile_eq_nil_iff.mpr hall, List.drop_nil]

theorem fieldText_append {key : Bytes} (h : IsKey key) (rest : Bytes) :
    fieldText (key ++ [61] ++ rest) = rest := by
  have hall : ∀ b ∈ key, decide (b ≠ 61) = true := fun b hb =>
    decide_eq_true fun heq => h.no_equals (heq ▸ hb)
  rw [fieldText, List.append_assoc, List.dropWhile_append_of_pos hall, List.singleton_append,
    List.dropWhile_cons_of_neg (by simp), List.drop_one, List.tail_cons]

theorem afterFirst_append {needle : Bytes} (hne : needle ≠ []) (rest : Bytes) :
    afterFirst needle (needle ++ rest) = some rest := by
  cases needle with
  | nil => exact absurd rfl hne
  | cons b needle =>
    rw [List.cons_append, afterFirst, ← List.cons_append,
      if_pos (List.isPrefixOf_iff_prefix.mpr (List.prefix_append _ _)), List.drop_left]

theorem queryParamValue_eq_fieldValue {query key : Bytes} (h : IsKey key)
    (hnot : ∀ text, ¬ Misread query key text) :
    queryParamValue query key = fieldValue query key := by
  rw [queryParamValue_eq_fields h, fieldValue]
  cases hfound : (query.splitOn 38).findSome? (afterFirst (key ++ [61])) with
  | none =>
    have hnone := List.findSome?_eq_none_iff.mp hfound
    have hbare : ∀ field ∈ query.splitOn 38, fieldName field = key → field = key := by
      intro field hfield hname
      rcases (fieldName_eq_iff h).mp hname with hkey | ⟨rest, hrest⟩
      · exact hkey
      · have hsome := hnone field hfield
        rw [← hrest, afterFirst_append (by simp)] at hsome
        cases hsome
    cases hfind : (query.splitOn 38).find? fun field => fieldName field = key with
    | none => rfl
    | some field =>
      have hname : fieldName field = key := by simpa using List.find?_some hfind
      have hkey := hbare field (List.mem_of_find?_eq_some hfind) hname
      rw [Option.elim_some, hkey, fieldText_key h, Option.getD_none]
  | some text =>
    obtain ⟨before, field, after, hsplit, htext, hbefore⟩ := List.findSome?_eq_some_iff.mp hfound
    have hwhole : key ++ [61] <+: field ∧ key ∉ before := by
      by_contra hwrong
      rw [not_and_or, not_not] at hwrong
      exact hnot text ⟨before, field, after, hsplit, hbefore, htext, hwrong⟩
    obtain ⟨⟨rest, rfl⟩, hbare⟩ := hwhole
    have hskip : ∀ earlier ∈ before, ¬ fieldName earlier = key := by
      intro earlier hearlier hname
      rcases (fieldName_eq_iff h).mp hname with rfl | ⟨more, hmore⟩
      · exact hbare hearlier
      · have hsome := hbefore earlier hearlier
        rw [← hmore, afterFirst_append (by simp)] at hsome
        cases hsome
    have hfirst : (before.find? fun field => fieldName field = key) = none :=
      List.find?_eq_none.mpr fun earlier hearlier hname =>
        hskip earlier hearlier (of_decide_eq_true hname)
    have hname : decide (fieldName (key ++ [61] ++ rest) = key) = true :=
      decide_eq_true ((fieldName_eq_iff h).mpr (.inr (List.prefix_append _ _)))
    rw [hsplit, List.find?_append, hfirst, Option.none_or, List.find?_cons, hname]
    rw [Option.elim_some, fieldText_append h, Option.getD_some]
    rw [afterFirst_append (by simp)] at htext
    exact (Option.some.inj htext).symm

/-- Where the lookup and the fields agree; by chance also where the key is misread. -/
theorem queryParamValue_eq_fieldValue_iff {key : Bytes} (h : IsKey key) (query : Bytes) :
    queryParamValue query key = fieldValue query key ↔
      ∀ text, Misread query key text → text = fieldValue query key := by
  constructor
  · intro hagree text hmisread
    rw [← queryParamValue_of_misread h hmisread, hagree]
  · intro hchance
    by_cases hmisread : ∃ text, Misread query key text
    · obtain ⟨text, htext⟩ := hmisread
      rw [queryParamValue_of_misread h htext, hchance text htext]
    · exact queryParamValue_eq_fieldValue h fun text htext => hmisread ⟨text, htext⟩

/-! Queries that `parameters` takes -/

/-- What `decode` makes of a text without percent-encoding. -/
def plusToSpace (text : Bytes) : Bytes := text.map fun b => if b = 43 then 32 else b

theorem decode_eq {text : Bytes} (h : 37 ∉ text) : decode text = some (plusToSpace text) := by
  induction text with
  | nil => rfl
  | cons b text ih =>
    have hb : b ≠ 37 := fun heq => h (heq ▸ List.mem_cons_self)
    have hrest : 37 ∉ text := fun hmem => h (.tail b hmem)
    rw [decode, ih hrest, Option.map_some, plusToSpace, plusToSpace, List.map_cons]
    · exact fun _ _ _ heq => (hb heq).elim
    · exact hb

theorem mem_of_mem_splitOn {query field : Bytes} (hfield : field ∈ query.splitOn 38) {b : UInt8}
    (hb : b ∈ field) : b ∈ query := by
  induction query using fieldwise with
  | last whole hwhole =>
    rw [List.splitOn_eq_singleton hwhole, List.mem_singleton] at hfield
    rwa [← hfield]
  | more whole rest hwhole ih =>
    rw [splitOn_field hwhole] at hfield
    rcases List.mem_cons.mp hfield with rfl | hfield
    · exact List.mem_append_left _ hb
    · exact List.mem_append_right _ (.tail _ (ih hfield))

/-- No key of the events has a blank, so its field has no plus sign. -/
theorem plusToSpace_eq_key_iff {name key : Bytes} (hkey : key ∈ eventKeys) :
    plusToSpace name = key ↔ name = key := by
  have hall : ∀ key ∈ eventKeys, 32 ∉ key ∧ 43 ∉ key := by decide
  obtain ⟨hblank, hplus⟩ := hall key hkey
  have hsame : ∀ text : Bytes, 43 ∉ text → plusToSpace text = text := fun text htext => by
    have hid : ∀ b ∈ text, (if b = 43 then 32 else b) = id b := fun b hb => by
      rw [if_neg fun heq : b = 43 => htext (heq ▸ hb), id]
    rw [plusToSpace, List.map_congr_left hid, List.map_id]
  constructor
  · intro hname
    by_cases hmem : (43 : UInt8) ∈ name
    · have hspace : (32 : UInt8) ∈ plusToSpace name := List.mem_map.mpr ⟨43, hmem, rfl⟩
      rw [hname] at hspace
      exact absurd hspace hblank
    · rwa [hsame name hmem] at hname
  · rintro rfl
    exact hsame name hplus

theorem foldlM_addParameter {fields : List Bytes} (hfields : ∀ field ∈ fields, 37 ∉ field)
    {result params : List (Bytes × Bytes)} (h : fields.foldlM addParameter result = some params) :
    params = result ++ fields.map (fun field =>
        (plusToSpace (fieldName field), plusToSpace (fieldText field))) ∧
      ∀ field ∈ fields, plusToSpace (fieldName field) ∈ eventKeys := by
  induction fields generalizing result with
  | nil =>
    rw [List.foldlM_nil] at h
    exact ⟨by rw [List.map_nil, List.append_nil]; exact (Option.some.inj h).symm,
      fun _ hfield => absurd hfield List.not_mem_nil⟩
  | cons field fields ih =>
    have hfield := hfields field List.mem_cons_self
    have hname : 37 ∉ fieldName field := fun hmem => hfield ((List.takeWhile_prefix _).subset hmem)
    have htext : 37 ∉ fieldText field := fun hmem =>
      hfield ((List.dropWhile_suffix _).subset (List.mem_of_mem_drop hmem))
    rw [List.foldlM_cons, addParameter, decode_eq hname, decode_eq htext] at h
    dsimp only at h
    split at h
    · cases h
    · rename_i hkeys
      rw [not_or, not_not] at hkeys
      obtain ⟨hparams, hall⟩ := ih (fun other hother => hfields other (.tail _ hother)) h
      refine ⟨by rw [hparams, List.map_cons, List.append_assoc, List.singleton_append], ?_⟩
      intro other hother
      rcases List.mem_cons.mp hother with rfl | hother
      · exact hkeys.1
      · exact hall other hother

theorem fieldsOf_sublist (query : Bytes) : (fieldsOf query).Sublist (query.splitOn 38) := by
  unfold fieldsOf
  dsimp only
  split
  · exact List.dropLast_sublist _
  · exact List.Sublist.refl _

/-- An empty field at the end has no key. -/
theorem find?_fieldsOf {key : Bytes} (h : IsKey key) (query : Bytes) :
    ((fieldsOf query).find? fun field => fieldName field = key) =
      (query.splitOn 38).find? fun field => fieldName field = key := by
  unfold fieldsOf
  dsimp only
  split
  · rename_i hlast
    have hnil : decide (fieldName [] = key) = false := decide_eq_false fun heq => h.ne_nil heq.symm
    conv_rhs => rw [← List.dropLast_append_getLast? [] hlast]
    rw [List.find?_append, List.find?_cons, hnil, List.find?_nil, Option.or_none]
  · rfl

theorem parameterValue_eq {query key : Bytes} {params : List (Bytes × Bytes)}
    (hparams : parameters query = some params) (hquery : 37 ∉ query) (hkey : key ∈ eventKeys) :
    parameterValue params key = plusToSpace (fieldValue query key) := by
  have hfields : ∀ field ∈ fieldsOf query, 37 ∉ field := fun field hfield hmem =>
    hquery (mem_of_mem_splitOn ((fieldsOf_sublist query).subset hfield) hmem)
  obtain ⟨rfl, -⟩ := foldlM_addParameter hfields hparams
  have hsame : ((fun param : Bytes × Bytes => decide (param.1 = key)) ∘ fun field =>
      (plusToSpace (fieldName field), plusToSpace (fieldText field))) =
      fun field => decide (fieldName field = key) :=
    funext fun field => decide_eq_decide.mpr (plusToSpace_eq_key_iff hkey)
  rw [parameterValue, fieldValue, List.nil_append, List.find?_map, hsame,
    find?_fieldsOf (isKey_of_mem_eventKeys hkey)]
  cases (query.splitOn 38).find? fun field => fieldName field = key with
  | none => rfl
  | some field => rfl

theorem plusToSpace_eq_self_iff (text : Bytes) : plusToSpace text = text ↔ 43 ∉ text := by
  induction text with
  | nil => simp [plusToSpace]
  | cons b text ih =>
    rw [plusToSpace, List.map_cons, ← plusToSpace, List.cons.injEq, ih, List.mem_cons, not_or]
    refine and_congr_left fun _ => ⟨fun hb heq => ?_, fun hb => if_neg fun heq => hb heq.symm⟩
    rw [← heq, if_pos rfl] at hb
    cases hb

/-- The lookup gives the field with exactly that name where the first `key=` begins its field and
no field before it is the key alone, or by chance. It agrees with `parameters` where, besides, the
value has no plus sign. -/
theorem queryParamValue_iff {key : Bytes} (h : IsKey key) (query : Bytes) :
    (queryParamValue query key = fieldValue query key ↔
      ∀ text, Misread query key text → text = fieldValue query key) ∧
    ∀ params, parameters query = some params → 37 ∉ query → key ∈ eventKeys →
      (queryParamValue query key = parameterValue params key ↔
        ((∀ text, ¬ Misread query key text) → 43 ∉ fieldValue query key) ∧
        ∀ text, Misread query key text → text = plusToSpace (fieldValue query key)) := by
  refine ⟨queryParamValue_eq_fieldValue_iff h query, fun params hparams hquery hkey => ?_⟩
  rw [parameterValue_eq hparams hquery hkey]
  constructor
  · intro hagree
    refine ⟨fun hnot => ?_, fun text hmisread => ?_⟩
    · rw [queryParamValue_eq_fieldValue h hnot] at hagree
      exact (plusToSpace_eq_self_iff _).mp hagree.symm
    · rw [← queryParamValue_of_misread h hmisread, hagree]
  · rintro ⟨hplus, hchance⟩
    by_cases hmisread : ∃ text, Misread query key text
    · obtain ⟨text, htext⟩ := hmisread
      rw [queryParamValue_of_misread h htext, hchance text htext]
    · have hnot : ∀ text, ¬ Misread query key text := fun text htext => hmisread ⟨text, htext⟩
      rw [queryParamValue_eq_fieldValue h hnot, (plusToSpace_eq_self_iff _).mpr (hplus hnot)]

theorem queryParamValue_iff_card_id :
    (queryParamValue (ascii "card_id=c1") (ascii "card_id") =
        fieldValue (ascii "card_id=c1") (ascii "card_id") ↔
      ∀ text, Misread (ascii "card_id=c1") (ascii "card_id") text →
        text = fieldValue (ascii "card_id=c1") (ascii "card_id")) ∧
    ∀ params, parameters (ascii "card_id=c1") = some params → 37 ∉ ascii "card_id=c1" →
      ascii "card_id" ∈ eventKeys →
      (queryParamValue (ascii "card_id=c1") (ascii "card_id") =
          parameterValue params (ascii "card_id") ↔
        ((∀ text, ¬ Misread (ascii "card_id=c1") (ascii "card_id") text) →
          43 ∉ fieldValue (ascii "card_id=c1") (ascii "card_id")) ∧
        ∀ text, Misread (ascii "card_id=c1") (ascii "card_id") text →
          text = plusToSpace (fieldValue (ascii "card_id=c1") (ascii "card_id"))) :=
  queryParamValue_iff (isKey_of_mem_routeKeys (by decide)) (ascii "card_id=c1")

/-- A key that ends as another one, and a key inside a value. -/
theorem queryParamValue_other_field :
    ascii "card_id" ∈ routeKeys ∧ ascii "parent_card_id" ∈ routeKeys ∧
    queryParamValue (ascii "parent_card_id=c1") (ascii "card_id") = ascii "c1" ∧
    fieldValue (ascii "parent_card_id=c1") (ascii "card_id") = [] ∧
    ∃ params, parameters (ascii "last_revision=project_id=p1") = some params ∧
      parameterValue params (ascii "project_id") = [] ∧
      queryParamValue (ascii "last_revision=project_id=p1") (ascii "project_id") = ascii "p1" := by
  refine ⟨by decide, by decide, by decide, by decide +kernel, ?_⟩
  refine ⟨[(ascii "last_revision", ascii "project_id=p1")], by decide +kernel, by decide, by decide⟩

end QueryFields

end HolderDaemon
