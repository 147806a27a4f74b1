import HolderDaemon.RunnerRegistry

/-!
The address of a manual runner, read twice: by the requests that store it
(`api/routes/ai/AiRunnerRoutes.cpp`), and by the registry that makes a client of it
(`llm/RunnerRegistry.cpp`). The first looks for the last colon of the whole address, the second
for the last one before the path.
-/

set_option autoImplicit false

open Bytes
open Json (of_bind_ok)

namespace HolderDaemon

namespace Runners

def httpPrefix : Bytes := ascii "http://"

/-! What an address names -/

/-- A decimal number that is the number of a port. -/
def isPort (s : Bytes) : Bool := (fromChars 65536 s).any fun n => 0 < n

/-- `http://host:port`, with a path or without one; the port stands after the last colon. -/
structure Names (address : Bytes) (target : ParsedBaseUrl) : Prop where
  written : ∃ path, address = httpPrefix ++ (target.host ++ 58 :: target.port) ++ path ∧
    path.head?.all (fun b => b = 47) = true
  host : target.host ≠ []
  noSlash : 47 ∉ target.host ++ target.port
  lastColon : 58 ∉ target.port
  port : isPort target.port = true

/-- What stands between `http://` and the first slash after it. -/
def addressPart (address : Bytes) : Bytes := (address.drop httpPrefix.length).takeWhile fun b => b ≠ 47

/-- The last colon before the path has something before it and the number of a port after it. -/
def HostPort (address : Bytes) : Prop :=
  ∃ colon ∈ rfind 58 (addressPart address), colon ≠ 0 ∧
    isPort ((addressPart address).drop (colon + 1)) = true

instance (address : Bytes) : Decidable (HostPort address) := by
  unfold HostPort
  infer_instance

/-! The two parsers -/

theorem rfind_last {b : UInt8} (t : Bytes) {u : Bytes} (h : b ∉ u) :
    rfind b (t ++ b :: u) = some t.length := by
  have hrev : (t ++ b :: u).reverse = u.reverse ++ b :: t.reverse := by simp
  have hidx : (t ++ b :: u).reverse.idxOf b = u.length := by
    rw [hrev, List.idxOf_append_of_notMem (by simpa using h), List.idxOf_cons_self,
      Nat.add_zero, List.length_reverse]
  rw [rfind, if_pos (by simp), hidx]
  simp only [List.length_append, List.length_cons, Option.some_inj]
  omega

theorem split_last {b : UInt8} {s : Bytes} (h : b ∈ s) : ∃ t u, s = t ++ b :: u ∧ b ∉ u := by
  obtain ⟨t, u, hrev, ht⟩ := List.eq_append_cons_of_mem (List.mem_reverse.mpr h)
  refine ⟨u.reverse, t.reverse, ?_, by simpa using ht⟩
  rw [← List.reverse_reverse s, hrev]
  simp

theorem rfind_eq_some {b : UInt8} {s : Bytes} {i : Nat} :
    rfind b s = some i ↔ ∃ t u, s = t ++ b :: u ∧ b ∉ u ∧ t.length = i := by
  constructor
  · intro h
    have hmem : b ∈ s := by
      by_contra hnot
      rw [rfind, if_neg hnot] at h
      cases h
    obtain ⟨t, u, rfl, hu⟩ := split_last hmem
    rw [rfind_last t hu, Option.some_inj] at h
    exact ⟨t, u, rfl, hu, h⟩
  · rintro ⟨t, u, rfl, hu, rfl⟩
    exact rfind_last t hu

/-- At the last colon. -/
theorem splitHostPort_last (t : Bytes) {u : Bytes} (h : 58 ∉ u) :
    splitHostPort (t ++ 58 :: u) = if t = [] ∨ u = [] then none else some ⟨t, u⟩ := by
  have hend : t.length = (t ++ 58 :: u).length - 1 ↔ u = [] := by
    rw [List.length_append, List.length_cons, ← List.length_eq_zero_iff]
    omega
  have hdrop : (t ++ 58 :: u).drop (t.length + 1) = u := by
    rw [← List.singleton_append, ← List.append_assoc]
    exact List.drop_left' (by simp)
  rw [splitHostPort, rfind_last t h]
  simp only [List.take_left' rfl, hdrop, hend, List.length_eq_zero_iff]

theorem splitHostPort_eq_some {value : Bytes} {target : ParsedBaseUrl} :
    splitHostPort value = some target ↔
      value = target.host ++ 58 :: target.port ∧ 58 ∉ target.port ∧ target.host ≠ [] ∧
        target.port ≠ [] := by
  constructor
  · intro h
    have hmem : 58 ∈ value := by
      by_contra hnot
      rw [splitHostPort, rfind, if_neg hnot] at h
      cases h
    obtain ⟨t, u, rfl, hu⟩ := split_last hmem
    rw [splitHostPort_last t hu] at h
    split at h
    · cases h
    · rename_i hne
      cases h
      exact ⟨rfl, hu, not_or.mp hne⟩
  · rintro ⟨rfl, hlast, hne⟩
    rw [splitHostPort_last _ hlast, if_neg (not_or.mpr hne)]

/-- Where a colon stands behind something, all that can go wrong is a colon at the end. -/
theorem splitHostPort_isSome {t : Bytes} (u : Bytes) (h : t ≠ []) :
    (splitHostPort (t ++ 58 :: u)).isSome = true ↔ (t ++ 58 :: u).getLast? ≠ some 58 := by
  have hcolon : 58 ∈ t ++ 58 :: u := by simp
  obtain ⟨a, b, hab, hb⟩ := split_last hcolon
  have ha : a ≠ [] := by
    rintro rfl
    obtain ⟨c, t, rfl⟩ := List.exists_cons_of_ne_nil h
    rw [← (List.cons.inj hab).2] at hb
    exact hb (by simp)
  rw [hab, splitHostPort_last a hb, List.getLast?_append_cons]
  cases b with
  | nil => simp
  | cons c b =>
    rw [if_neg (not_or.mpr ⟨ha, by simp⟩), List.getLast?_cons_cons]
    refine ⟨fun _ hlast => hb (List.mem_of_getLast? hlast), fun _ => rfl⟩

theorem parseHttpBaseUrl_eq (address : Bytes) :
    parseHttpBaseUrl (some address) =
      if httpPrefix.isPrefixOf address then splitHostPort (addressPart address) else none := by
  have hpart : addressPart address =
      (address.drop httpPrefix.length).take ((address.drop httpPrefix.length).idxOf 47) := by
    rw [addressPart, List.takeWhile_eq_take_findIdx_not, List.idxOf]
    congr 2
    funext b
    rw [Bool.eq_iff_iff]
    simp
  rw [hpart, parseHttpBaseUrl, ite_not]
  rfl

theorem mem_addressPart {address : Bytes} {b : UInt8} (h : b ∈ addressPart address) : b ≠ 47 := by
  simpa using List.mem_takeWhile_imp h

/-- An address with `http://`: the part before the path, and the path. -/
theorem address_parts {address : Bytes} (h : httpPrefix.isPrefixOf address = true) :
    ∃ path, address = httpPrefix ++ addressPart address ++ path ∧
      path.head?.all (fun b => b = 47) = true := by
  obtain ⟨rest, rfl⟩ := List.isPrefixOf_iff_prefix.mp h
  refine ⟨rest.dropWhile fun b => b ≠ 47, ?_, ?_⟩
  · rw [addressPart, List.drop_left, List.append_assoc, List.takeWhile_append_dropWhile]
  · cases hdrop : rest.dropWhile fun b => b ≠ 47 with
    | nil => rfl
    | cons b path =>
      have hb := List.head?_dropWhile_not (fun b : UInt8 => decide (b ≠ 47)) rest
      rw [hdrop] at hb
      simpa using hb

/-- The registry reads what the address names, where it names something. -/
theorem parse_named_iff {address : Bytes} (h : httpPrefix.isPrefixOf address = true) :
    (∃ target, Names address target ∧ parseHttpBaseUrl (some address) = some target) ↔
      HostPort address := by
  rw [parseHttpBaseUrl_eq, if_pos h]
  constructor
  · rintro ⟨target, hnames, hparse⟩
    obtain ⟨hpart, hlast, hhost, -⟩ := splitHostPort_eq_some.mp hparse
    refine ⟨target.host.length, ?_, ?_, ?_⟩
    · rw [hpart, rfind_last _ hlast]
      rfl
    · exact fun hzero => hhost (List.length_eq_zero_iff.mp hzero)
    · rw [hpart, ← List.singleton_append, ← List.append_assoc, List.drop_left' (by simp)]
      exact hnames.port
  · rintro ⟨colon, hfind, hcolon, hport⟩
    obtain ⟨host, port, hpart, hlast, rfl⟩ := rfind_eq_some.mp hfind
    rw [hpart, ← List.singleton_append, ← List.append_assoc, List.drop_left' (by simp)] at hport
    have hne : port ≠ [] := by
      rintro rfl
      simp [isPort, fromChars] at hport
    have hhost : host ≠ [] := fun hnil => hcolon (List.length_eq_zero_iff.mpr hnil)
    obtain ⟨path, haddress, hpath⟩ := address_parts h
    refine ⟨⟨host, port⟩, ⟨⟨path, ?_, hpath⟩, hhost, ?_, hlast, hport⟩, ?_⟩
    · rw [← hpart]
      exact haddress
    · intro hslash
      have hmem : (47 : UInt8) ∈ addressPart address → False := fun hmem => mem_addressPart hmem rfl
      refine hmem ?_
      rw [hpart]
      rcases List.mem_append.mp hslash with hmem | hmem
      · exact List.mem_append_left _ hmem
      · exact List.mem_append_right _ (List.mem_cons_of_mem _ hmem)
    · exact splitHostPort_eq_some.mpr ⟨hpart, hlast, hhost, hne⟩

/-! The validation -/

theorem validatedRunnerBaseUrl_ok {body : Json} {required : Bool} {value : Bytes} :
    validatedRunnerBaseUrl body required = .ok (some value) ↔
      ∃ raw, given body "base_url" = some (.str raw) ∧ value = trimAscii raw ∧
        httpPrefix.isPrefixOf value = true ∧
        (splitHostPort (value.drop httpPrefix.length)).isSome = true := by
  unfold validatedRunnerBaseUrl httpPrefix
  cases hgiven : given body "base_url" with
  | none => cases required <;> simp
  | some j =>
    cases j with
    | str raw =>
      simp only [getString, Json.getString, Except.mapError, bind, Except.bind, Option.some.injEq,
        Json.str.injEq, exists_eq_left']
      constructor
      · intro h
        split at h
        · cases h
        · split at h
          · cases h
          · rename_i hhttp
            split at h
            · cases h
            · rename_i hsplit
              cases h
              exact ⟨rfl, not_not.mp hhttp, by simpa [Option.isSome_iff_ne_none] using hsplit⟩
      · rintro ⟨rfl, hhttp, hsplit⟩
        have hne : trimAscii raw ≠ [] := by
          intro hnil
          rw [hnil] at hhttp
          cases hhttp
        rw [if_neg hne, if_neg (not_not.mpr hhttp), if_neg]
        rw [Option.isNone_iff_eq_none]
        exact Option.isSome_iff_ne_none.mp hsplit
    | _ => simp [getString, Json.getString, Except.mapError, bind, Except.bind]

/-! Blanks at the end of an address -/

theorem trimAscii_address {rest : Bytes} :
    trimAscii (httpPrefix ++ rest) = (httpPrefix ++ rest).rdropWhile isSpace := by
  rfl

theorem rdropWhile_colon (t u : Bytes) :
    (t ++ 58 :: u).rdropWhile isSpace = t ++ 58 :: u.rdropWhile isSpace := by
  have hcolon : isSpace 58 = false := by decide
  have hrev : (t ++ 58 :: u).reverse = u.reverse ++ 58 :: t.reverse := by simp
  rw [List.rdropWhile, List.rdropWhile, hrev, List.dropWhile_append]
  split
  · rename_i hempty
    rw [List.isEmpty_iff.mp hempty, List.dropWhile_cons_of_neg (by simp [hcolon])]
    simp
  · simp

def Accepted (address : Bytes) : Prop :=
  ∃ value, validatedRunnerBaseUrl (.object [(ascii "base_url", .str address)]) true = .ok (some value)

/-- What the registry reads, the validation refuses for a colon at the end only. -/
theorem accepted_iff {address : Bytes} (h : (parseHttpBaseUrl (some address)).isSome = true) :
    Accepted address ↔ (trimAscii address).getLast? ≠ some 58 := by
  have hgiven : given (.object [(ascii "base_url", .str address)]) "base_url" =
      some (.str address) := by
    rw [given, Json.field?_object, List.lookup_cons_self]
  rw [parseHttpBaseUrl_eq] at h
  split at h
  · rename_i hhttp
    obtain ⟨target, hsplit⟩ := Option.isSome_iff_exists.mp h
    obtain ⟨hpart, hlast, hhost, hport⟩ := splitHostPort_eq_some.mp hsplit
    obtain ⟨path, haddress, hpath⟩ := address_parts hhttp
    have htrim : trimAscii address =
        httpPrefix ++ (target.host ++ 58 :: (target.port ++ path).rdropWhile isSpace) := by
      rw [haddress, hpart, List.append_assoc, trimAscii_address, List.append_assoc,
        List.cons_append, ← List.append_assoc, rdropWhile_colon, List.append_assoc]
    have hback : (trimAscii address).getLast? =
        (target.host ++ 58 :: (target.port ++ path).rdropWhile isSpace).getLast? := by
      rw [htrim, ← List.append_assoc, List.getLast?_append_cons, List.getLast?_append_cons]
    rw [hback, ← splitHostPort_isSome _ hhost, Accepted]
    simp only [validatedRunnerBaseUrl_ok, hgiven, Option.some.injEq, Json.str.injEq,
      exists_eq_left', exists_eq_left]
    rw [htrim, List.drop_left, List.isPrefixOf_iff_prefix]
    exact ⟨fun h => h.2, fun h => ⟨List.prefix_append _ _, h⟩⟩
  · cases h

/-! A runner that is created -/

theorem createRunner_baseUrl {uuid : Bytes} {now : Int} {body : Json} {runner : Runner}
    (h : createRunner uuid now body = .ok runner) :
    ∃ value, validatedRunnerBaseUrl body true = .ok (some value) ∧ runner.baseUrl = some value ∧
      runner.source = ascii "manual" ∧ runner.kind = ascii "ollama" := by
  obtain ⟨_, _, _, _, baseUrl, _, -, -, hollama, hbase, rfl⟩ := createRunner_ok h
  cases baseUrl with
  | some value => exact ⟨value, hbase, rfl, rfl, hollama⟩
  | none =>
    unfold validatedRunnerBaseUrl at hbase
    split at hbase
    · cases hbase
    · obtain ⟨raw, -, hbase⟩ := of_bind_ok hbase
      dsimp only at hbase
      repeat split at hbase <;> try cases hbase

/-- A registry that loads the table with the runner has a client for its address. -/
theorem created_has_client {uuid : Bytes} {now : Int} {body : Json} {runner : Runner}
    (h : createRunner uuid now body = .ok runner) (henabled : runner.enabled = true)
    (hbase : ∀ value ∈ runner.baseUrl, HostPort value) (t : RunnerTable) :
    ∃ value target, runner.baseUrl = some value ∧ Names value target ∧
      (loadManualClients (t.upsert runner)).lookup runner.runnerId = some (.fresh target) := by
  obtain ⟨value, hvalid, hvalue, hsource, hkind⟩ := createRunner_baseUrl h
  obtain ⟨raw, -, -, hhttp, -⟩ := validatedRunnerBaseUrl_ok.mp hvalid
  obtain ⟨target, hnames, hparse⟩ := (parse_named_iff hhttp).mpr (hbase value hvalue)
  refine ⟨value, target, hvalue, hnames, ?_⟩
  rw [lookup_loadManualClients, RunnerTable.get_upsert, if_pos rfl, Option.bind_some,
    clientAddress, hvalue, hparse, henabled, hsource, hkind]
  rfl

/-! The two readings -/

/-- An accepted address is read as the host and the port that it names where it has them before
its path, and a runner that is created with one has a client; an address that is read is accepted
where it does not end with a colon. -/
theorem accepted_address_usable_iff (address : Bytes) :
    (∀ body required, validatedRunnerBaseUrl body required = .ok (some address) →
      ((∃ target, Names address target ∧ parseHttpBaseUrl (some address) = some target) ↔
        HostPort address)) ∧
    (∀ uuid now body runner, createRunner uuid now body = .ok runner → runner.enabled = true →
      (∀ value ∈ runner.baseUrl, HostPort value) → ∀ t : RunnerTable,
      ∃ value target, runner.baseUrl = some value ∧ Names value target ∧
        (loadManualClients (t.upsert runner)).lookup runner.runnerId = some (.fresh target)) ∧
    ((parseHttpBaseUrl (some address)).isSome = true →
      (Accepted address ↔ (trimAscii address).getLast? ≠ some 58)) := by
  refine ⟨fun body required hvalid => ?_, ?_, fun hparse => accepted_iff hparse⟩
  · obtain ⟨raw, -, -, hhttp, -⟩ := validatedRunnerBaseUrl_ok.mp hvalid
    exact parse_named_iff hhttp
  · intro uuid now body runner hcreate henabled hbase t
    exact created_has_client hcreate henabled hbase t

def addressBody (address : String) : Json :=
  .object [(ascii "base_url", .str (ascii address))]

theorem accepted_address_usable_office :
    (∃ target, Names (ascii "http://office:11434") target ∧
      parseHttpBaseUrl (some (ascii "http://office:11434")) = some target) ∧
    Accepted (ascii "http://office:11434/api") := by
  refine ⟨((accepted_address_usable_iff _).1 (addressBody "http://office:11434") true ?_).mpr ?_,
    ((accepted_address_usable_iff _).2.2 ?_).mpr ?_⟩
  all_goals decide

/-- A runner that is created and has no client, an accepted address without a port's number, and
an address that is read and not accepted. -/
theorem accepted_address_unusable :
    (∃ runner, createRunner [] 0 (.object [(ascii "name", .str (ascii "Office")),
        (ascii "kind", .str (ascii "ollama")),
        (ascii "base_url", .str (ascii "http://office/api:11434"))]) = .ok runner ∧
      runner.enabled = true ∧
      ∀ t : RunnerTable, (loadManualClients (t.upsert runner)).lookup runner.runnerId = none) ∧
    (Accepted (ascii "http://office:port") ∧
      ¬ ∃ target, Names (ascii "http://office:port") target ∧
        parseHttpBaseUrl (some (ascii "http://office:port")) = some target) ∧
    ¬ Accepted (ascii "http://office:11434/api:") ∧
      (parseHttpBaseUrl (some (ascii "http://office:11434/api:"))).isSome = true := by
  refine ⟨⟨⟨ascii "manual-", ascii "Office", ascii "ollama", some (ascii "http://office/api:11434"),
    ascii "manual", true, 0, 0⟩, by decide, rfl, fun t => ?_⟩,
    ⟨⟨ascii "http://office:port", by decide⟩, ?_⟩, ?_, by decide⟩
  · rw [lookup_loadManualClients, RunnerTable.get_upsert, if_pos rfl, Option.bind_some]
    decide
  · rw [parse_named_iff (by decide)]
    decide
  · rw [accepted_iff (by decide)]
    decide

end Runners

end HolderDaemon
