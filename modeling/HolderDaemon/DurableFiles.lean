import HolderDaemon.AiDurability

/-!
The durable AI files one by one: where an identifier's file stands, and that a file is read back
as what was written.
-/

set_option autoImplicit false

open Bytes

namespace HolderDaemon

namespace AiDurability

/-! Paths -/

/-- The identifier is one file name, and its first two bytes do not lead out of the root. -/
def Regular (id : Text) : Prop := (47 : UInt8) ∉ id.val ∧ id.val.take 2 ≠ ascii ".."

theorem normalize_push {part : Bytes} (hnil : part ≠ []) (hdot : part ≠ ascii ".")
    (hdots : part ≠ ascii "..") (parts : Path) (stack : Path) :
    normalize (part :: parts) stack = normalize parts (part :: stack) := by
  simp [normalize, hnil, hdot, hdots]

theorem ne_of_length {a b : Bytes} (h : a.length ≠ b.length) : a ≠ b := fun hab => h (hab ▸ rfl)

theorem splitSlash_eq {s : Bytes} (h : (47 : UInt8) ∉ s) : splitSlash s = [s] :=
  List.splitOn_eq_singleton h

/-- A second piece that leads up takes the first one away. -/
theorem relativePath_eq {root : String} {id : Text} (hroot : 2 < (ascii root).length)
    (hid : Regular id) (hlen : 4 ≤ id.val.length) :
    relativePath root id = some
      (if (id.val.drop 2).take 2 = ascii ".." then [ascii root, id.val ++ ascii ".json"]
      else [ascii root, id.val.take 2, (id.val.drop 2).take 2, id.val ++ ascii ".json"]) := by
  have hone : (ascii ".").length = 1 := by decide
  have htwo : (ascii "..").length = 2 := by decide
  have hjson : (ascii ".json").length = 5 := by decide
  have hnot : ∀ n, (47 : UInt8) ∉ id.val.drop n := fun n hm => hid.1 (List.mem_of_mem_drop hm)
  have hfirst : (id.val.take 2).length = 2 := by simp; omega
  have hsecond : ((id.val.drop 2).take 2).length = 2 := by simp; omega
  have hthird : (id.val ++ ascii ".json").length = id.val.length + 5 := by
    rw [List.length_append, hjson]
  have hslash : (47 : UInt8) ∉ ascii ".json" := by decide
  have hhead : ∀ s : Bytes, (47 : UInt8) ∉ s → s.head? ≠ some 47 := fun s hs h =>
    hs (List.mem_of_mem_head? h)
  have hmem : (47 : UInt8) ∉ id.val.take 2 := fun hm => hid.1 (List.mem_of_mem_take hm)
  have hmem' : (47 : UInt8) ∉ (id.val.drop 2).take 2 := fun hm => hnot 2 (List.mem_of_mem_take hm)
  simp only [relativePath]
  rw [if_neg (by omega), if_neg (not_or.mpr ⟨hhead _ hmem, hhead _ hmem'⟩), splitSlash_eq hmem,
    splitSlash_eq hmem', splitSlash_eq (by simp [hid.1, hslash])]
  simp only [List.cons_append, List.nil_append]
  rw [normalize_push (List.ne_nil_of_length_pos (by omega)) (ne_of_length (by omega))
      (ne_of_length (by omega)),
    normalize_push (List.ne_nil_of_length_pos (by omega)) (ne_of_length (by omega)) hid.2]
  by_cases hup : (id.val.drop 2).take 2 = ascii ".."
  · rw [if_pos hup, normalize, if_neg (by
        rintro (hnil | hdot)
        · rw [hnil] at hsecond
          simp at hsecond
        · rw [hdot] at hsecond
          omega), if_pos hup]
    rw [normalize_push (List.ne_nil_of_length_pos (by omega)) (ne_of_length (by omega))
      (ne_of_length (by omega))]
    rfl
  · rw [if_neg hup, normalize_push (List.ne_nil_of_length_pos (by omega)) (ne_of_length (by omega))
        hup,
      normalize_push (List.ne_nil_of_length_pos (by omega)) (ne_of_length (by omega))
        (ne_of_length (by omega))]
    rfl

theorem four_le_of_relativePath {root : String} {id : Text} {path : Path}
    (h : relativePath root id = some path) : 4 ≤ id.val.length := by
  simp only [relativePath] at h
  split at h
  · cases h
  · omega

theorem relativePath_shape {root : String} {id : Text} {path : Path}
    (hroot : 2 < (ascii root).length)
    (hid : Regular id) (h : relativePath root id = some path) :
    path.head? = some (ascii root) ∧ 1 < path.length ∧
      path.getLast? = some (id.val ++ ascii ".json") ∧ 3 < id.val.length := by
  have hlen := four_le_of_relativePath h
  rw [relativePath_eq hroot hid hlen, Option.some.injEq] at h
  obtain rfl := h
  refine ⟨?_, ?_, ?_, hlen⟩
  all_goals split <;> simp

theorem relativePath_listed {root : String} {id : Text} {path : Path}
    (hroot : 2 < (ascii root).length) (hid : Regular id) (h : relativePath root id = some path) :
    listed root path = true := by
  obtain ⟨hhead, hlen, hlast, hid⟩ := relativePath_shape hroot hid h
  have hjson : (ascii ".json").length = 5 := by decide
  simp [listed, hhead, hlen, hlast, hjson]
  omega

theorem relativePath_injective {root : String} {id other : Text} {path : Path}
    (hroot : 2 < (ascii root).length) (hid : Regular id) (hother : Regular other)
    (h : relativePath root id = some path) (h' : relativePath root other = some path) :
    id = other := by
  have hlast := (relativePath_shape hroot hid h).2.2.1
  rw [(relativePath_shape hroot hother h').2.2.1, Option.some.injEq] at hlast
  ext1
  exact (List.append_cancel_right hlast).symm

/-! Encoding and decoding -/

theorem encode_congr {projectId : Text} {p q : Project} (hmode : p.privacyMode = q.privacyMode)
    (hkey : p.projectKeyId = q.projectKeyId) (doc : Json) :
    encode projectId p doc = encode projectId q doc := by
  simp only [encode, hmode, hkey]

theorem decode_encode {projectId : Text} {p : Project} {doc : Json} {raw : Blob}
    (h : encode projectId p doc = some raw) (noKey : String) :
    decode projectId p noKey raw = .ok doc := by
  unfold encode at h
  unfold decode
  repeat' split at h
  all_goals cases h
  · simp_all
  · simp_all

theorem givenString_optionalString {fields : List (Bytes × Json)} {key : String}
    {s : Option Bytes} (h : fields.lookup (ascii key) = some (optionalString s)) :
    givenString (.object fields) key = .ok s := by
  unfold givenString
  rw [Json.field?_object, h]
  cases s <;> rfl

theorem nullableString_optionalString {fields : List (Bytes × Json)} {key : String}
    {s : Option Bytes} (h : fields.lookup (ascii key) = some (optionalString s)) :
    nullableString (.object fields) key = .ok s := by
  unfold nullableString
  rw [Json.atKey_object h]
  cases s <;> rfl

theorem getInt64_toInt (n : Int64) : (Json.int n.toInt).getInt64 = .ok n := by
  rw [Json.getInt64, Int64.ofInt_toInt]

theorem stateOfJson_stateJson (s : ThreadCompactionState) (h : s.threadId.val ≠ []) :
    stateOfJson (stateJson s) = .ok (s.threadId.val, s.row) := by
  have hversion : isVersionOne (stateJson s) = true := by
    simp [isVersionOne, stateJson, Json.field?_object]
  have hid : (stateJson s).atKey "thread_id" = .ok (.str s.threadId.val) :=
    Json.atKey_object (by simp [List.lookup_cons])
  have hsummary : givenString (stateJson s) "rolling_summary" = .ok s.rollingSummary :=
    givenString_optionalString (by simp [List.lookup_cons])
  have hfacts : givenString (stateJson s) "pinned_facts_json" = .ok s.pinnedFactsJson :=
    givenString_optionalString (by simp [List.lookup_cons])
  have hlast : givenString (stateJson s) "last_compacted_message_id" =
      .ok s.lastCompactedMessageId :=
    givenString_optionalString (by simp [List.lookup_cons])
  have htime : (stateJson s).atKey "updated_at" = .ok (.int s.updatedAt.toInt) :=
    Json.atKey_object (by simp [List.lookup_cons])
  simp [stateOfJson, hversion, hid, hsummary, hfacts, hlast, htime, bind, Except.bind,
    Json.getString, getInt64_toInt, h, ThreadCompactionState.row]

/-- What every stored nudge satisfies: it comes from a candidate of a stored project. -/
structure Nudge.Stored (n : Nudge) : Prop where
  regular : Regular n.nudgeId
  named : n.nudgeId.val ≠ []
  kind : n.kind.val ≠ []
  projectId : n.projectId.val ≠ []
  dismissed : ∀ t, n.dismissedAt = some t → 0 < t

theorem nudgeOfJson_nudgeJson {n : Nudge} (h : n.Stored) {dismissedAt : Int64}
    (hdismissed : n.dismissedAt = some dismissedAt) :
    nudgeOfJson (nudgeJson n dismissedAt) = .ok (n.nudgeId.val, n.projectId.val, n) := by
  have hversion : isVersionOne (nudgeJson n dismissedAt) = true := by
    simp [isVersionOne, nudgeJson, Json.field?_object]
  have hid : (nudgeJson n dismissedAt).atKey "nudge_id" = .ok (.str n.nudgeId.val) :=
    Json.atKey_object (by simp [List.lookup_cons])
  have hkind : (nudgeJson n dismissedAt).atKey "kind" = .ok (.str n.kind.val) :=
    Json.atKey_object (by simp [List.lookup_cons])
  have hproject : (nudgeJson n dismissedAt).atKey "project_id" = .ok (.str n.projectId.val) :=
    Json.atKey_object (by simp [List.lookup_cons])
  have hcard : nullableString (nudgeJson n dismissedAt) "card_id" =
      .ok (n.cardId.map Text.val) :=
    nullableString_optionalString (by simp [List.lookup_cons])
  have htitle : (nudgeJson n dismissedAt).atKey "title" = .ok (.str n.title.val) :=
    Json.atKey_object (by simp [List.lookup_cons])
  have hbody : (nudgeJson n dismissedAt).atKey "body" = .ok (.str n.body.val) :=
    Json.atKey_object (by simp [List.lookup_cons])
  have hmeta : (nudgeJson n dismissedAt).atKey "meta_json" = .ok n.metaJson :=
    Json.atKey_object (by simp [List.lookup_cons])
  have hfingerprint : nullableString (nudgeJson n dismissedAt) "basis_fingerprint" =
      .ok (n.basisFingerprint.map Text.val) :=
    nullableString_optionalString (by simp [List.lookup_cons])
  have hcommit : nullableString (nudgeJson n dismissedAt) "basis_commit" =
      .ok (n.basisCommit.map Text.val) :=
    nullableString_optionalString (by simp [List.lookup_cons])
  have hcreated : (nudgeJson n dismissedAt).atKey "created_at" = .ok (.int n.createdAt.toInt) :=
    Json.atKey_object (by simp [List.lookup_cons])
  have htime : (nudgeJson n dismissedAt).atKey "dismissed_at" = .ok (.int dismissedAt.toInt) :=
    Json.atKey_object (by simp [List.lookup_cons])
  have hbound : ¬ (n.nudgeId.val = [] ∨ n.kind.val = [] ∨ n.projectId.val = [] ∨
      dismissedAt ≤ 0) := by
    have hlater := h.dismissed dismissedAt hdismissed
    simp only [h.named, h.kind, h.projectId, false_or, Int64.not_le]
    exact hlater
  have htext : ∀ o : Option Text, (o.map Text.val).map cString = o := by
    intro o
    cases o <;> simp
  simp only [nudgeOfJson, hversion, hid, hkind, hproject, hcard, htitle, hbody, hmeta,
    hfingerprint, hcommit, hcreated, htime, bind, Except.bind, Json.getString, getInt64_toInt,
    hbound, htext, cString_val, Bool.not_true, Bool.false_eq_true, if_false, ← hdismissed]

end AiDurability

end HolderDaemon
