import HolderDaemon.Delimiters
import HolderDaemon.Json
import HolderDaemon.RunnerAddress

/-!
What the `sync` commands print of the daemon's answers (`cli/commands/sync.cpp`): diagnostics
with a marker are withheld, and remote URLs that are seen to hold credentials.
-/

set_option autoImplicit false

open Bytes

namespace HolderDaemon

namespace SyncRedaction

open Runners (rfind)

def lowerAscii (s : Bytes) : Bytes := s.map fun b => if 65 ≤ b ∧ b ≤ 90 then b + 32 else b

def redacted : Bytes := ascii "[redacted]"

def markers : List Bytes :=
  [ascii "://", ascii "@", ascii "token", ascii "password", ascii "credential", ascii "bearer",
    ascii "authorization"]

/-- Some marker occurs, whatever the case of its letters. -/
def marked (text : Bytes) : Bool := markers.any fun marker => decide (marker <:+: lowerAscii text)

def safeDiagnostic (text : Bytes) : Bytes := if marked text then redacted else text

/-- From the scheme mark to the next slash, or to the end. -/
def authorityOf (after : Bytes) : Bytes := after.takeWhile fun b => b ≠ 47

def safeRemoteUrl (url : Bytes) : Bytes :=
  if url.any fun b => b = 63 || b = 35 then redacted
  else if url.any fun b => b < 32 || b = 127 then redacted
  else
    match Delimiters.cut (ascii "://") url with
    | some (_, after) => if 64 ∈ authorityOf after then redacted else url
    | none =>
      if 64 ∈ url ∧ (¬ ascii "git@" <+: url ∨ rfind 64 url ≠ some 3) then redacted else url

def isRemoteKey (key : Bytes) : Bool := key == ascii "remote_url" || key == ascii "git_remote_url"

/-- The string under a key that names a remote. -/
def remoteText? (key : Bytes) (value : Json) : Option Bytes :=
  match value with
  | .str s => if isRemoteKey key then some s else none
  | _ => none

mutual

def redactDiagnostics : Json → Json
  | .str s => .str (safeDiagnostic s)
  | .arr items => .arr (redactItems items)
  | .obj fields => .obj (redactFields fields)
  | .null => .null
  | .bool b => .bool b
  | .int i => .int i
  | .float text => .float text

def redactItems : List Json → List Json
  | [] => []
  | child :: rest => redactDiagnostics child :: redactItems rest

def redactFields : List (Bytes × Json) → List (Bytes × Json)
  | [] => []
  | (key, value) :: rest =>
    (key, match remoteText? key value with
      | some url => .str (safeRemoteUrl url)
      | none => redactDiagnostics value) :: redactFields rest

end

/-! What is to hold of the output -/

mutual

/-- A value with its strings blotted out: what redaction is to keep. -/
def shape : Json → Json
  | .str _ => .str []
  | .arr items => .arr (shapeItems items)
  | .obj fields => .obj (shapeFields fields)
  | .null => .null
  | .bool b => .bool b
  | .int i => .int i
  | .float text => .float text

def shapeItems : List Json → List Json
  | [] => []
  | child :: rest => shape child :: shapeItems rest

def shapeFields : List (Bytes × Json) → List (Bytes × Json)
  | [] => []
  | (key, value) :: rest => (key, shape value) :: shapeFields rest

end

/-- No `@`, or only that of a leading `git@`. -/
def OnlyGitAt (s : Bytes) : Prop := 64 ∉ s ∨ ∃ rest, s = ascii "git@" ++ rest ∧ 64 ∉ rest

/-- No control character, no `?` and no `#`. -/
def Plain (url : Bytes) : Prop := ∀ b ∈ url, 32 ≤ b ∧ b ≠ 127 ∧ b ≠ 63 ∧ b ≠ 35

/-- `scheme://authority/path`, cut at the first scheme mark and at the first slash after an
authority that is not empty. -/
structure HasPath (url scheme authority path : Bytes) : Prop where
  mark : Delimiters.cut (ascii "://") url = some (scheme, authority ++ 47 :: path)
  authority_ne : authority ≠ []
  authority_noSlash : 47 ∉ authority

/-- A remote that may be shown: `@` stands in its path or is that of a leading `git@`. -/
structure Allowed (url : Bytes) : Prop where
  plain : Plain url
  ats : OnlyGitAt url ∨ ∃ scheme authority path, HasPath url scheme authority path ∧
    OnlyGitAt (scheme ++ ascii "://" ++ authority)

mutual

/-- Every string is without a marker, or is a remote that may be shown. -/
def Safe : Json → Prop
  | .str s => marked s = false
  | .arr items => SafeItems items
  | .obj fields => SafeFields fields
  | _ => True

def SafeItems : List Json → Prop
  | [] => True
  | child :: rest => Safe child ∧ SafeItems rest

def SafeFields : List (Bytes × Json) → Prop
  | [] => True
  | (key, value) :: rest =>
    (match remoteText? key value with
      | some url => marked url = false ∨ Allowed url
      | none => Safe value) ∧ SafeFields rest

end

/-- What the two tests of a remote do not look at: `@` before the scheme mark, other than that
of a leading `git@`, and `@` after an authority that is empty. -/
def Overlooked (url : Bytes) : Prop :=
  Plain url ∧ ∃ scheme after, Delimiters.cut (ascii "://") url = some (scheme, after) ∧
    64 ∉ authorityOf after ∧ (¬ OnlyGitAt scheme ∨ (authorityOf after = [] ∧ 64 ∈ after))

mutual

/-- No remote of the value is overlooked. -/
def Covered : Json → Prop
  | .arr items => CoveredItems items
  | .obj fields => CoveredFields fields
  | _ => True

def CoveredItems : List Json → Prop
  | [] => True
  | child :: rest => Covered child ∧ CoveredItems rest

def CoveredFields : List (Bytes × Json) → Prop
  | [] => True
  | (key, value) :: rest =>
    (match remoteText? key value with
      | some url => ¬ Overlooked url
      | none => Covered value) ∧ CoveredFields rest

end

/-! Diagnostics -/

theorem marked_redacted : marked redacted = false := by decide +kernel

theorem safeDiagnostic_safe (text : Bytes) : marked (safeDiagnostic text) = false := by
  unfold safeDiagnostic
  split
  · exact marked_redacted
  · rename_i h
    exact Bool.not_eq_true _ ▸ h

theorem safeDiagnostic_of_not_marked {text : Bytes} (h : marked text = false) :
    safeDiagnostic text = text := by
  rw [safeDiagnostic, if_neg (by simp [h])]

theorem at_notMem_of_not_marked {text : Bytes} (h : marked text = false) : 64 ∉ text := by
  intro hmem
  have hlower : (64 : UInt8) ∈ lowerAscii text := List.mem_map.mpr ⟨64, hmem, by decide⟩
  obtain ⟨before, after, hsplit⟩ := List.append_of_mem hlower
  have hinfix : ascii "@" <:+: lowerAscii text := ⟨before, after, by
    rw [hsplit, show ascii "@" = [64] by decide]
    simp⟩
  have hany := List.any_eq_false.mp h (ascii "@") (by simp [markers])
  exact hany (decide_eq_true hinfix)

/-! Remotes -/

theorem plain_iff {url : Bytes} :
    Plain url ↔ (url.any fun b => b = 63 || b = 35) = false ∧
      (url.any fun b => b < 32 || b = 127) = false := by
  simp only [List.any_eq_false, Plain]
  constructor
  · intro h
    refine ⟨fun b hb => ?_, fun b hb => ?_⟩
    · have hp := h b hb
      simp [hp.2.2.1, hp.2.2.2]
    · have hp := h b hb
      simp [hp.1, hp.2.1]
  · rintro ⟨hquery, hcontrol⟩ b hb
    have hq := hquery b hb
    have hc := hcontrol b hb
    simp only [Bool.or_eq_true, decide_eq_true_eq, not_or, UInt8.not_lt] at hq hc
    exact ⟨hc.1, hc.2, hq.1, hq.2⟩

theorem git_prefix_rfind {url : Bytes} (hmem : 64 ∈ url) :
    (¬ ascii "git@" <+: url ∨ rfind 64 url ≠ some 3) ↔ ¬ OnlyGitAt url := by
  have hgit : ascii "git@" = [103, 105, 116, 64] := by decide
  rw [← not_and_or, not_iff_not]
  constructor
  · rintro ⟨⟨rest, rfl⟩, hlast⟩
    refine .inr ⟨rest, rfl, fun hin => ?_⟩
    obtain ⟨t, u, hsplit, hu⟩ := Runners.split_last hin
    have hwhole : ascii "git@" ++ rest = (ascii "git@" ++ t) ++ 64 :: u := by
      rw [hsplit, List.append_assoc]
    rw [hwhole, Runners.rfind_last _ hu, Option.some_inj, List.length_append, hgit] at hlast
    simp at hlast
    omega
  · rintro (hnone | ⟨rest, rfl, hrest⟩)
    · exact absurd hmem hnone
    · refine ⟨⟨rest, rfl⟩, ?_⟩
      have hwhole : ascii "git@" ++ rest = [103, 105, 116] ++ 64 :: rest := by
        rw [hgit]
        rfl
      rw [hwhole, Runners.rfind_last _ hrest]
      rfl

/-- A leading `git@` ends before the scheme mark. -/
theorem onlyGitAt_mark {scheme rest : Bytes} :
    OnlyGitAt (scheme ++ ascii "://" ++ rest) ↔ OnlyGitAt scheme ∧ 64 ∉ rest := by
  have hgit : ascii "git@" = [103, 105, 116, 64] := by decide
  have hmark : ascii "://" = [58, 47, 47] := by decide
  rw [hmark]
  constructor
  · rintro (hnone | ⟨tail, hsplit, htail⟩)
    · simp only [List.mem_append, not_or] at hnone
      exact ⟨.inl hnone.1.1, hnone.2⟩
    · rw [hgit] at hsplit
      match scheme, hsplit with
      | [], hsplit => simp at hsplit
      | [_], hsplit => simp at hsplit
      | [_, _], hsplit => simp at hsplit
      | [_, _, _], hsplit => simp at hsplit
      | c0 :: c1 :: c2 :: c3 :: scheme, hsplit =>
        simp only [List.cons_append, List.nil_append, List.cons.injEq] at hsplit
        obtain ⟨rfl, rfl, rfl, rfl, rfl⟩ := hsplit
        simp only [List.mem_append, not_or] at htail
        exact ⟨.inr ⟨scheme, by rw [hgit]; rfl, htail.1.1⟩, htail.2⟩
  · rintro ⟨hnone | ⟨tail, rfl, htail⟩, hrest⟩
    · left
      simp only [List.mem_append, not_or]
      exact ⟨⟨hnone, by decide⟩, hrest⟩
    · refine .inr ⟨tail ++ [58, 47, 47] ++ rest, by simp, ?_⟩
      simp only [List.mem_append, not_or]
      exact ⟨⟨htail, by decide⟩, hrest⟩

theorem cut_mark {url scheme after : Bytes}
    (h : Delimiters.cut (ascii "://") url = some (scheme, after)) :
    url = scheme ++ ascii "://" ++ after :=
  Delimiters.cut_eq_some h

/-- What stands after the mark is an authority, or an authority, a slash and a path. -/
theorem authority_split (after : Bytes) :
    authorityOf after = after ∨ ∃ path, after = authorityOf after ++ 47 :: path := by
  by_cases h : (47 : UInt8) ∈ after
  · obtain ⟨before, path, rfl, hnot⟩ := List.eq_append_cons_of_mem h
    have hbefore : ∀ b ∈ before, decide (b ≠ 47) = true := fun b hb =>
      decide_eq_true fun heq => hnot (heq ▸ hb)
    have hauthority : authorityOf (before ++ 47 :: path) = before := by
      rw [authorityOf, List.takeWhile_append_of_pos hbefore]
      simp
    exact .inr ⟨path, by rw [hauthority]⟩
  · left
    exact List.takeWhile_eq_self_iff.mpr fun b hb => decide_eq_true fun heq => h (heq ▸ hb)

theorem authorityOf_append {authority : Bytes} (h : 47 ∉ authority) (path : Bytes) :
    authorityOf (authority ++ 47 :: path) = authority := by
  have hall : ∀ b ∈ authority, decide (b ≠ 47) = true := fun b hb =>
    decide_eq_true fun heq => h (heq ▸ hb)
  rw [authorityOf, List.takeWhile_append_of_pos hall]
  simp

theorem slash_notMem_authorityOf (after : Bytes) : 47 ∉ authorityOf after := by
  intro h
  have hne : decide ((47 : UInt8) ≠ 47) = true :=
    List.mem_takeWhile_imp (p := fun b : UInt8 => decide (b ≠ 47)) h
  exact of_decide_eq_true hne rfl

/-- A plain remote without a scheme mark is shown where it may be. -/
theorem shown_unmarked {url : Bytes} (hplain : Plain url)
    (hcut : Delimiters.cut (ascii "://") url = none) :
    safeRemoteUrl url = url ∧ Allowed url ∨ safeRemoteUrl url = redacted := by
  obtain ⟨hquery, hcontrol⟩ := plain_iff.mp hplain
  have hvalue : safeRemoteUrl url =
      if 64 ∈ url ∧ (¬ ascii "git@" <+: url ∨ rfind 64 url ≠ some 3) then redacted else url := by
    rw [safeRemoteUrl, if_neg (by simp [hquery]), if_neg (by simp [hcontrol]), hcut]
  rw [hvalue]
  split
  · exact .inr rfl
  · rename_i hkeep
    refine .inl ⟨rfl, hplain, .inl ?_⟩
    by_cases hmem : 64 ∈ url
    · by_contra hno
      exact hkeep ⟨hmem, (git_prefix_rfind hmem).mpr hno⟩
    · exact .inl hmem

/-- A plain remote with one is shown where its authority has no `@`, and then it may be
unless something was overlooked. -/
theorem shown_marked {url scheme after : Bytes} (hplain : Plain url)
    (hcut : Delimiters.cut (ascii "://") url = some (scheme, after)) :
    (64 ∈ authorityOf after ∧ safeRemoteUrl url = redacted) ∨
      (64 ∉ authorityOf after ∧ safeRemoteUrl url = url) := by
  obtain ⟨hquery, hcontrol⟩ := plain_iff.mp hplain
  have hvalue : safeRemoteUrl url = if 64 ∈ authorityOf after then redacted else url := by
    rw [safeRemoteUrl, if_neg (by simp [hquery]), if_neg (by simp [hcontrol]), hcut]
  by_cases hmem : 64 ∈ authorityOf after
  · exact .inl ⟨hmem, by rw [hvalue, if_pos hmem]⟩
  · exact .inr ⟨hmem, by rw [hvalue, if_neg hmem]⟩

theorem allowed_iff {url scheme after : Bytes} (hplain : Plain url)
    (hcut : Delimiters.cut (ascii "://") url = some (scheme, after))
    (hauthority : 64 ∉ authorityOf after) :
    Allowed url ↔ OnlyGitAt scheme ∧ (authorityOf after = [] → 64 ∉ after) := by
  have hurl := cut_mark hcut
  constructor
  · rintro ⟨-, hwhole | ⟨scheme', authority, path, hpath, hats⟩⟩
    · rw [hurl, onlyGitAt_mark] at hwhole
      exact ⟨hwhole.1, fun _ => hwhole.2⟩
    · have hsame := hcut.symm.trans hpath.mark
      obtain ⟨rfl, rfl⟩ := Prod.mk.inj (Option.some.inj hsame)
      refine ⟨(onlyGitAt_mark.mp hats).1, fun hnil => ?_⟩
      rw [authorityOf_append hpath.authority_noSlash] at hnil
      exact absurd hnil hpath.authority_ne
  · rintro ⟨hscheme, hempty⟩
    refine ⟨hplain, ?_⟩
    by_cases hnil : authorityOf after = []
    · left
      rw [hurl, onlyGitAt_mark]
      exact ⟨hscheme, hempty hnil⟩
    · rcases authority_split after with hall | ⟨path, hafter⟩
      · left
        rw [hurl, onlyGitAt_mark]
        exact ⟨hscheme, hall ▸ hauthority⟩
      · right
        refine ⟨scheme, authorityOf after, path, ⟨?_, hnil, slash_notMem_authorityOf after⟩,
          onlyGitAt_mark.mpr ⟨hscheme, hauthority⟩⟩
        rw [hcut, ← hafter]

/-- A remote is printed safely exactly where nothing in it is overlooked. -/
theorem safeRemoteUrl_safe_iff (url : Bytes) :
    (marked (safeRemoteUrl url) = false ∨ Allowed (safeRemoteUrl url)) ↔ ¬ Overlooked url := by
  have hredacted : marked redacted = false ∨ Allowed redacted := .inl marked_redacted
  by_cases hplain : Plain url
  · cases hcut : Delimiters.cut (ascii "://") url with
    | none =>
      have hnot : ¬ Overlooked url := by
        rintro ⟨-, scheme, after, hsome, -⟩
        rw [hcut] at hsome
        cases hsome
      rcases shown_unmarked hplain hcut with ⟨heq, hallowed⟩ | heq
      · rw [heq]
        exact iff_of_true (.inr hallowed) hnot
      · rw [heq]
        exact iff_of_true hredacted hnot
    | some parts =>
      obtain ⟨scheme, after⟩ := parts
      have hover : Overlooked url ↔ 64 ∉ authorityOf after ∧
          (¬ OnlyGitAt scheme ∨ (authorityOf after = [] ∧ 64 ∈ after)) := by
        constructor
        · rintro ⟨-, scheme', after', hsome, hrest⟩
          obtain ⟨rfl, rfl⟩ := Prod.mk.inj (Option.some.inj (hcut.symm.trans hsome))
          exact hrest
        · exact fun h => ⟨hplain, scheme, after, hcut, h⟩
      rw [hover]
      rcases shown_marked hplain hcut with ⟨hmem, heq⟩ | ⟨hmem, heq⟩
      · rw [heq]
        exact iff_of_true hredacted fun h => h.1 hmem
      · rw [heq]
        have hallowed := allowed_iff hplain hcut hmem
        have hunmarked : marked url = false → Allowed url := by
          intro hno
          have hat := at_notMem_of_not_marked hno
          exact ⟨hplain, .inl (.inl hat)⟩
        rw [or_iff_right_of_imp hunmarked, hallowed]
        tauto
  · have hshown : safeRemoteUrl url = redacted := by
      rw [plain_iff, not_and_or] at hplain
      unfold safeRemoteUrl
      split
      · rfl
      · rename_i hquery
        rw [Bool.not_eq_true] at hquery
        rw [if_pos (Bool.eq_true_of_not_eq_false (hplain.resolve_left (not_not.mpr hquery)))]
    rw [hshown]
    exact iff_of_true hredacted fun h => hplain h.1

theorem safeRemoteUrl_fixed (url : Bytes) :
    safeRemoteUrl (safeRemoteUrl url) = safeRemoteUrl url := by
  have hredacted : safeRemoteUrl redacted = redacted := by decide +kernel
  have hcases : safeRemoteUrl url = redacted ∨ safeRemoteUrl url = url := by
    unfold safeRemoteUrl
    split
    · exact .inl rfl
    · split
      · exact .inl rfl
      · split
        · exact ite_eq_or_eq _ _ _
        · exact ite_eq_or_eq _ _ _
  rcases hcases with heq | heq
  · rw [heq, hredacted]
  · rw [heq, heq]

/-! Values -/

theorem safeDiagnostic_fixed (text : Bytes) :
    safeDiagnostic (safeDiagnostic text) = safeDiagnostic text :=
  safeDiagnostic_of_not_marked (safeDiagnostic_safe text)

theorem remoteText?_eq_some {key url : Bytes} {value : Json}
    (h : remoteText? key value = some url) : value = .str url ∧ isRemoteKey key = true := by
  unfold remoteText? at h
  split at h
  · split at h
    · rename_i hkey
      cases h
      exact ⟨rfl, hkey⟩
    · cases h
  · cases h

theorem remoteText?_str {key : Bytes} (h : isRemoteKey key = true) (s : Bytes) :
    remoteText? key (.str s) = some s := by
  rw [remoteText?, if_pos h]

/-- A value that names no remote does not do so once it is redacted. -/
theorem remoteText?_redact {key : Bytes} {value : Json} (h : remoteText? key value = none) :
    remoteText? key (redactDiagnostics value) = none := by
  cases value with
  | str s =>
    unfold remoteText? at h
    split at h
    · split at h
      · cases h
      · rename_i hkey
        rw [redactDiagnostics, remoteText?, if_neg hkey]
    · rename_i hno
      exact absurd rfl (hno s)
  | _ =>
    rw [redactDiagnostics]
    rfl

mutual

theorem shape_redact (value : Json) : shape (redactDiagnostics value) = shape value := by
  cases value with
  | str s => rfl
  | arr items => rw [redactDiagnostics, shape, shape, shape_redactItems items]
  | obj fields => rw [redactDiagnostics, shape, shape, shape_redactFields fields]
  | null => rfl
  | bool b => rfl
  | int i => rfl
  | float text => rfl

theorem shape_redactItems (items : List Json) :
    shapeItems (redactItems items) = shapeItems items := by
  cases items with
  | nil => rfl
  | cons child rest =>
    rw [redactItems, shapeItems, shapeItems, shape_redact child, shape_redactItems rest]

theorem shape_redactFields (fields : List (Bytes × Json)) :
    shapeFields (redactFields fields) = shapeFields fields := by
  cases fields with
  | nil => rfl
  | cons f rest =>
    obtain ⟨key, value⟩ := f
    rw [redactFields, shapeFields, shapeFields, shape_redactFields rest]
    cases h : remoteText? key value with
    | some url =>
      obtain ⟨rfl, -⟩ := remoteText?_eq_some h
      rfl
    | none => rw [shape_redact value]

end

mutual

theorem redact_fixed (value : Json) :
    redactDiagnostics (redactDiagnostics value) = redactDiagnostics value := by
  cases value with
  | str s => rw [redactDiagnostics, redactDiagnostics, safeDiagnostic_fixed]
  | arr items => rw [redactDiagnostics, redactDiagnostics, redactItems_fixed items]
  | obj fields => rw [redactDiagnostics, redactDiagnostics, redactFields_fixed fields]
  | null => rfl
  | bool b => rfl
  | int i => rfl
  | float text => rfl

theorem redactItems_fixed (items : List Json) :
    redactItems (redactItems items) = redactItems items := by
  cases items with
  | nil => rfl
  | cons child rest => rw [redactItems, redactItems, redact_fixed child, redactItems_fixed rest]

theorem redactFields_fixed (fields : List (Bytes × Json)) :
    redactFields (redactFields fields) = redactFields fields := by
  cases fields with
  | nil => rfl
  | cons f rest =>
    obtain ⟨key, value⟩ := f
    cases h : remoteText? key value with
    | some url =>
      obtain ⟨rfl, hkey⟩ := remoteText?_eq_some h
      simp only [redactFields, remoteText?_str hkey, safeRemoteUrl_fixed, redactFields_fixed rest]
    | none =>
      simp only [redactFields, h, remoteText?_redact h, redact_fixed value,
        redactFields_fixed rest]

end

mutual

theorem safe_redact_iff (value : Json) : Safe (redactDiagnostics value) ↔ Covered value := by
  cases value with
  | str s => exact iff_of_true (safeDiagnostic_safe s) trivial
  | arr items =>
    rw [redactDiagnostics, Safe, Covered]
    exact safe_redactItems_iff items
  | obj fields =>
    rw [redactDiagnostics, Safe, Covered]
    exact safe_redactFields_iff fields
  | null => exact iff_of_true trivial trivial
  | bool b => exact iff_of_true trivial trivial
  | int i => exact iff_of_true trivial trivial
  | float text => exact iff_of_true trivial trivial

theorem safe_redactItems_iff (items : List Json) :
    SafeItems (redactItems items) ↔ CoveredItems items := by
  cases items with
  | nil => exact iff_of_true trivial trivial
  | cons child rest =>
    rw [redactItems, SafeItems, CoveredItems]
    exact and_congr (safe_redact_iff child) (safe_redactItems_iff rest)

theorem safe_redactFields_iff (fields : List (Bytes × Json)) :
    SafeFields (redactFields fields) ↔ CoveredFields fields := by
  cases fields with
  | nil => exact iff_of_true trivial trivial
  | cons f rest =>
    obtain ⟨key, value⟩ := f
    rw [redactFields, SafeFields, CoveredFields]
    refine and_congr ?_ (safe_redactFields_iff rest)
    cases h : remoteText? key value with
    | some url =>
      obtain ⟨rfl, hkey⟩ := remoteText?_eq_some h
      simp only [remoteText?_str hkey]
      exact safeRemoteUrl_safe_iff url
    | none =>
      simp only [remoteText?_redact h]
      exact safe_redact_iff value

end

/-- Redaction keeps the shape and is done once; its output is safe exactly where no remote of
the value has an `@` that its two tests overlook. -/
theorem redactDiagnostics_safe_iff (value : Json) :
    (shape (redactDiagnostics value) = shape value ∧
      redactDiagnostics (redactDiagnostics value) = redactDiagnostics value ∧
      Safe (redactDiagnostics value)) ↔ Covered value := by
  rw [and_iff_right (shape_redact value), and_iff_right (redact_fixed value)]
  exact safe_redact_iff value

instance (s : Bytes) : Decidable (Plain s) := by
  unfold Plain
  infer_instance

/-- A secret before the scheme mark and one after an empty authority, both printed. -/
theorem overlooked_shown :
    ∀ url ∈ [ascii "me:s3cret@host://work.git", ascii "https:///me:s3cret@host/work.git"],
      redactDiagnostics (.obj [(ascii "git_remote_url", .str url)]) =
          .obj [(ascii "git_remote_url", .str url)] ∧
        ¬ Safe (redactDiagnostics (.obj [(ascii "git_remote_url", .str url)])) := by
  have hkey : isRemoteKey (ascii "git_remote_url") = true := by decide
  have hshown : ∀ url ∈ [ascii "me:s3cret@host://work.git",
      ascii "https:///me:s3cret@host/work.git"], safeRemoteUrl url = url := by decide +kernel
  have hplain : ∀ url ∈ [ascii "me:s3cret@host://work.git",
      ascii "https:///me:s3cret@host/work.git"], Plain url := by decide +kernel
  have hover : ∀ url ∈ [ascii "me:s3cret@host://work.git",
      ascii "https:///me:s3cret@host/work.git"], Overlooked url := by
    intro url hurl
    refine ⟨hplain url hurl, ?_⟩
    rcases List.mem_pair.mp hurl with rfl | rfl
    · refine ⟨ascii "me:s3cret@host", ascii "work.git", by decide +kernel, by decide, .inl ?_⟩
      rintro (hnone | ⟨rest, hsplit, -⟩)
      · exact hnone (by decide)
      · have hhead := congrArg List.head? hsplit
        revert hhead
        simp [show ascii "me:s3cret@host" = 109 :: ascii "e:s3cret@host" by decide,
          show ascii "git@" = [103, 105, 116, 64] by decide]
    · exact ⟨ascii "https", ascii "/me:s3cret@host/work.git", by decide +kernel, by decide,
        .inr (by decide)⟩
  intro url hurl
  refine ⟨?_, fun hsafe => ?_⟩
  · simp only [redactDiagnostics, redactFields, remoteText?_str hkey, hshown url hurl]
  · have hcovered := (safe_redact_iff _).mp hsafe
    simp only [Covered, CoveredFields, remoteText?_str hkey] at hcovered
    exact hcovered.1 (hover url hurl)

theorem redactDiagnostics_leaks :
    (redactDiagnostics (.obj [(ascii "git_remote_url", .str (ascii "me:s3cret@host://work.git"))]) =
        .obj [(ascii "git_remote_url", .str (ascii "me:s3cret@host://work.git"))] ∧
      ¬ Safe (redactDiagnostics
        (.obj [(ascii "git_remote_url", .str (ascii "me:s3cret@host://work.git"))]))) ∧
    redactDiagnostics
        (.obj [(ascii "git_remote_url", .str (ascii "https:///me:s3cret@host/work.git"))]) =
        .obj [(ascii "git_remote_url", .str (ascii "https:///me:s3cret@host/work.git"))] ∧
      ¬ Safe (redactDiagnostics
        (.obj [(ascii "git_remote_url", .str (ascii "https:///me:s3cret@host/work.git"))])) :=
  ⟨overlooked_shown _ List.mem_cons_self,
    overlooked_shown _ (List.mem_cons_of_mem _ List.mem_cons_self)⟩

end SyncRedaction

end HolderDaemon
