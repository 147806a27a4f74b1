import HolderDaemon.Json

/-!
The cloud client (`api/support/CloudClient.cpp`): how a provider's response becomes a text or an
error. `parse` is the JSON parser, with the `what()` of the exception that it throws.
-/

set_option autoImplicit false

open Bytes

namespace HolderDaemon

namespace CloudClient

def statusErrorCode (status : Int) : Bytes :=
  if status = 401 ∨ status = 403 then ascii "auth_failed"
  else if status = 429 then ascii "rate_limited"
  else if status = 408 ∨ status = 504 then ascii "provider_timeout"
  else if status ≥ 500 then ascii "provider_unavailable"
  else ascii "provider_error"

def lowercaseAscii (s : Bytes) : Bytes :=
  s.map fun b => if 65 ≤ b ∧ b ≤ 90 then b + 32 else b

def containsInsensitive (haystack : Bytes) (needle : String) : Bool :=
  (lowercaseAscii haystack).tails.any (lowercaseAscii (ascii needle)).isPrefixOf

/-- A member that is a string. -/
def textField (j : Json) (key : String) : Option Bytes :=
  match j.field? (ascii key) with
  | some (.str s) => some s
  | _ => none

/-- A member that is an object. -/
def objectField (j : Json) (key : String) : Option Json :=
  match j.field? (ascii key) with
  | some (.obj fields) => some (.obj fields)
  | _ => none

/-- A member that is an array. -/
def arrayField (j : Json) (key : String) : Option (List Json) :=
  match j.field? (ascii key) with
  | some (.arr items) => some items
  | _ => none

section Responses
variable (parse : Bytes → Except Bytes Json)

def quotaExceeded (providerKind : Bytes) (parsed : Json) : Bool :=
  match objectField parsed "error" with
  | none => false
  | some err =>
    providerKind = ascii "generic_responses" &&
        (textField err "code" = some (ascii "insufficient_quota") ||
          textField err "type" = some (ascii "insufficient_quota")) ||
      providerKind = ascii "mechatropic_messages" &&
        (textField err "message").any fun message =>
          containsInsensitive message "credit balance is too low" ||
            containsInsensitive message "purchase credits" ||
            containsInsensitive message "plans & billing"

def classifyErrorFromBody (providerKind : Bytes) (status : Int) (responseBody : Bytes) :
    Option Bytes :=
  if status = 401 ∨ status = 403 then some (ascii "auth_failed")
  else if status = 408 ∨ status = 504 then some (ascii "provider_timeout")
  else if status ≥ 500 then some (ascii "provider_unavailable")
  else
    let code := if status = 429 then ascii "rate_limited" else ascii "provider_error"
    match parse responseBody with
    | .ok parsed =>
      some (if quotaExceeded providerKind parsed then ascii "quota_exceeded" else code)
    | .error _ => some code

def nonempty (text : Bytes) : Option Bytes := if text = [] then none else some text

def parseChocolatefactoryText (parsed : Json) : Option Bytes := do
  let candidates ← arrayField parsed "candidates"
  let first ← candidates.head?
  let content ← first.field? (ascii "content")
  let parts ← arrayField content "parts"
  nonempty (parts.flatMap fun part => (textField part "text").getD [])

/-- The texts of the items whose `type` is `text`; a `type` that is no string throws. -/
def textOfItems : List Json → Except Bytes Bytes
  | [] => .ok []
  | item :: rest => do
    let here ← match item with
      | .obj fields => do
        let kind ← (Json.value (.obj fields) (ascii "type") (.str [])).getString
        .ok (if kind = ascii "text" then (textField (.obj fields) "text").getD [] else [])
      | _ => .ok []
    let more ← textOfItems rest
    .ok (here ++ more)

def parseGenericChatText (parsed : Json) : Except Bytes (Option Bytes) :=
  match (arrayField parsed "choices").bind List.head? with
  | none => .ok none
  | some choice =>
    match (objectField choice "message").bind fun message => message.field? (ascii "content") with
    | some (.str text) => .ok (nonempty text)
    | some (.arr items) => (textOfItems items).map nonempty
    | _ => .ok none

def parseMechatropicMessagesText (parsed : Json) : Except Bytes (Option Bytes) :=
  match arrayField parsed "content" with
  | none => .ok none
  | some items => (textOfItems items).map nonempty

/-- The text of a response, by the kind of the provider. -/
def responseText (providerKind : Bytes) (parsed : Json) : Except Bytes (Option Bytes) :=
  if providerKind = ascii "chocolatefactory_generative_language" then
    .ok (parseChocolatefactoryText parsed)
  else if providerKind = ascii "generic_chat" then parseGenericChatText parsed
  else if providerKind = ascii "generic_responses" then
    .ok ((textField parsed "output_text").bind nonempty)
  else if providerKind = ascii "mechatropic_messages" then parseMechatropicMessagesText parsed
  else .ok none

structure CloudResponseParse where
  text : Option Bytes := none
  errorCode : Bytes := []
  errorMessage : Bytes := []
  deriving DecidableEq

def missingText : CloudResponseParse where
  errorCode := ascii "malformed_response"
  errorMessage := ascii "cloud response missing expected text"

def parseCloudResponse (providerKind : Bytes) (status : Int) (responseBody : Bytes) :
    CloudResponseParse :=
  if status < 200 ∨ status ≥ 300 then
    { errorCode := (classifyErrorFromBody parse providerKind status responseBody).getD
        (statusErrorCode status)
      errorMessage := ascii "cloud HTTP " ++ Json.dumpInt status ++ ascii ": " ++
        responseBody.take 300 }
  else
    match (parse responseBody).bind (responseText providerKind) with
    | .ok (some text) => { text := some text }
    | .ok none => missingText
    | .error what => { errorCode := ascii "malformed_response", errorMessage := what }

/-- What a request comes to: a failed transport with its text, or a response. -/
inductive Reply where
  | transportFailed (error : Bytes)
  | response (status : Int) (body : Bytes)

structure CloudProvider where
  id : Bytes
  kind : Bytes
  authType : Bytes

def cloudKinds : List String :=
  ["chocolatefactory_generative_language", "generic_chat", "generic_responses",
    "mechatropic_messages"]

def authTypes : List String := ["api_key_query", "bearer_header", "header_key"]

/-- The text of the answer, or `error`. -/
def runCloudModel (provider : CloudProvider) (endpoint : Bytes) (reply : Reply) :
    Except Bytes Bytes :=
  if !cloudKinds.any fun kind => provider.kind = ascii kind then
    .error (ascii "unsupported provider kind: " ++ provider.kind)
  else if endpoint = [] then .error (ascii "missing provider model endpoint")
  else if !authTypes.any fun authType => provider.authType = ascii authType then
    .error (ascii "unsupported auth type: " ++ provider.authType)
  else
    match reply with
    | .transportFailed error =>
      .error (ascii "transport_error: " ++
        if error = [] then ascii "cloud request failed" else error)
    | .response status body =>
      let parsed := parseCloudResponse parse provider.kind status body
      match parsed.text with
      | some text => .ok text
      | none =>
        .error (if parsed.errorCode = [] then parsed.errorMessage
          else parsed.errorCode ++ ascii ": " ++ parsed.errorMessage)

/-! Error texts -/

/-- The bytes of the response that are quoted are UTF-8: the first 300 of an error's body, what the
parser says of a body that is no JSON. -/
def CleanResponse (status : Int) (body : Bytes) : Prop :=
  if status < 200 ∨ status ≥ 300 then validUtf8 (body.take 300) = true
  else ∀ what, parse body = .error what → validUtf8 what = true

def CleanReply : Reply → Prop
  | .transportFailed error => validUtf8 error = true
  | .response status body => CleanResponse parse status body

end Responses

theorem validUtf8_append_right {s : Bytes} (hs : validUtf8 s = true) (t : Bytes) :
    validUtf8 (s ++ t) = validUtf8 t := by
  simp only [validUtf8, decide_eq_true_eq] at hs ⊢
  rw [Utf8.scan_append, hs, Option.bind_some]

theorem validUtf8_of_digits {s : Bytes} (h : s.all isDigit = true) : validUtf8 s = true := by
  induction s with
  | nil => rfl
  | cons b rest ih =>
    rw [List.all_cons, Bool.and_eq_true] at h
    have hlow : b.toNat < 0x80 := by
      have hdigit := h.1
      simp only [isDigit, Bool.and_eq_true, decide_eq_true_eq] at hdigit
      omega
    have hone : validUtf8 [b] = true := by
      simp [validUtf8, Utf8.scan, Utf8.next, Utf8.first, hlow]
    exact validUtf8_append hone (ih h.2)

theorem validUtf8_dumpInt (i : Int) : validUtf8 (Json.dumpInt i) = true := by
  have hdigits : validUtf8 (decimal i.natAbs) = true :=
    validUtf8_of_digits (all_isDigit_decimal _)
  unfold Json.dumpInt
  split
  · exact validUtf8_append (by decide) hdigits
  · exact hdigits

theorem validUtf8_typeError (j : Json) : validUtf8 (Json.typeError "string" j) = true := by
  have hname : validUtf8 (Json.typeName j) = true := by
    cases j <;> (simp only [Json.typeName]; decide)
  exact validUtf8_append (by decide +kernel) hname

theorem getString_error {j : Json} {what : Bytes} (h : j.getString = .error what) :
    validUtf8 what = true := by
  unfold Json.getString at h
  split at h
  next => cases h
  next =>
    cases h
    exact validUtf8_typeError _

/-- Whatever the items throw is ASCII. -/
theorem textOfItems_error {items : List Json} {what : Bytes}
    (h : textOfItems items = .error what) : validUtf8 what = true := by
  induction items with
  | nil => cases h
  | cons item rest ih =>
    have hrest : ∀ here : Bytes, ((textOfItems rest).bind fun more => .ok (here ++ more)) =
        .error what → validUtf8 what = true := by
      intro here hbind
      cases hmore : textOfItems rest with
      | error e =>
        rw [hmore] at hbind ih
        cases hbind
        exact ih rfl
      | ok more =>
        rw [hmore] at hbind
        cases hbind
    cases item with
    | obj fields =>
      cases hkind : (Json.value (.obj fields) (ascii "type") (.str [])).getString with
      | error e =>
        simp only [textOfItems, hkind, bind, Except.bind] at h
        cases h
        exact getString_error hkind
      | ok kind =>
        simp only [textOfItems, hkind, bind, Except.bind] at h
        exact hrest _ h
    | _ => exact hrest [] h

/-! Texts -/

theorem encodable_of_field? {j v : Json} {key : Bytes} (hj : j.encodable = true)
    (h : j.field? key = some v) : v.encodable = true := by
  cases j with
  | obj fields =>
    obtain ⟨f, hf, rfl⟩ := Option.map_eq_some_iff.mp h
    have hmem := List.mem_of_find?_eq_some hf
    rw [Json.encodable] at hj
    clear hf h
    induction fields with
    | nil => cases hmem
    | cons g rest ih =>
      rw [Json.encodableFields, Bool.and_eq_true, Bool.and_eq_true] at hj
      rcases List.mem_cons.mp hmem with rfl | hmem
      · exact hj.1.2
      · exact ih hj.2 hmem
  | _ => cases h

theorem textField_valid {j : Json} {key : String} {text : Bytes} (hj : j.encodable = true)
    (h : textField j key = some text) : validUtf8 text = true := by
  unfold textField at h
  split at h
  next s hs =>
    cases h
    exact encodable_of_field? hj hs
  next => cases h

theorem textField_getD_valid {j : Json} {key : String} (hj : j.encodable = true) :
    validUtf8 ((textField j key).getD []) = true := by
  cases h : textField j key with
  | none => rfl
  | some text => exact textField_valid hj h

theorem objectField_encodable {j v : Json} {key : String} (hj : j.encodable = true)
    (h : objectField j key = some v) : v.encodable = true := by
  unfold objectField at h
  split at h
  next fields hfields =>
    cases h
    exact encodable_of_field? hj hfields
  next => cases h

theorem arrayField_encodable {j : Json} {key : String} {items : List Json}
    (hj : j.encodable = true) (h : arrayField j key = some items) :
    ∀ item ∈ items, item.encodable = true := by
  unfold arrayField at h
  split at h
  next items' hitems =>
    cases h
    have harr := encodable_of_field? hj hitems
    rwa [Json.encodable, Json.encodableItems_eq, List.all_eq_true] at harr
  next => cases h

theorem nonempty_eq_some {s text : Bytes} (h : nonempty s = some text) : s = text := by
  unfold nonempty at h
  split at h
  · cases h
  · exact Option.some.inj h

theorem textOfItems_valid {items : List Json} (hitems : ∀ item ∈ items, item.encodable = true)
    {text : Bytes} (h : textOfItems items = .ok text) : validUtf8 text = true := by
  induction items generalizing text with
  | nil =>
    cases h
    rfl
  | cons item rest ih =>
    have hrest : ∀ here : Bytes, validUtf8 here = true →
        ((textOfItems rest).bind fun more => .ok (here ++ more)) = .ok text →
          validUtf8 text = true := by
      intro here hhere hbind
      cases hmore : textOfItems rest with
      | error e =>
        rw [hmore] at hbind
        cases hbind
      | ok more =>
        rw [hmore] at hbind
        cases hbind
        exact validUtf8_append hhere (ih (fun i hi => hitems i (List.mem_cons_of_mem _ hi)) hmore)
    cases item with
    | obj fields =>
      have hobj := hitems (.obj fields) List.mem_cons_self
      cases hkind : (Json.value (.obj fields) (ascii "type") (.str [])).getString with
      | error e =>
        simp only [textOfItems, hkind, bind, Except.bind] at h
        cases h
      | ok kind =>
        simp only [textOfItems, hkind, bind, Except.bind] at h
        refine hrest _ ?_ h
        split
        · exact textField_getD_valid hobj
        · rfl
    | _ => exact hrest [] rfl h

theorem flatMap_valid {parts : List Json} {f : Json → Bytes}
    (h : ∀ part ∈ parts, validUtf8 (f part) = true) : validUtf8 (parts.flatMap f) = true := by
  induction parts with
  | nil => rfl
  | cons part rest ih =>
    rw [List.flatMap_cons]
    exact validUtf8_append (h part List.mem_cons_self)
      (ih fun p hp => h p (List.mem_cons_of_mem _ hp))

theorem parseChocolatefactoryText_valid {parsed : Json} (hparsed : parsed.encodable = true)
    {text : Bytes} (h : parseChocolatefactoryText parsed = some text) : validUtf8 text = true := by
  unfold parseChocolatefactoryText at h
  obtain ⟨candidates, hcandidates, h⟩ := Option.bind_eq_some_iff.mp h
  obtain ⟨first, hfirst, h⟩ := Option.bind_eq_some_iff.mp h
  obtain ⟨content, hcontent, h⟩ := Option.bind_eq_some_iff.mp h
  obtain ⟨parts, hparts, h⟩ := Option.bind_eq_some_iff.mp h
  have hencoded := arrayField_encodable hparsed hcandidates first (List.mem_of_head? hfirst)
  have hcontents := encodable_of_field? hencoded hcontent
  have hall := arrayField_encodable hcontents hparts
  rw [← nonempty_eq_some h]
  exact flatMap_valid fun part hpart => textField_getD_valid (hall part hpart)

/-- Where a text comes from: items of an array, whose types are read, or members that are. -/
theorem responseText_cases (providerKind : Bytes) (parsed : Json) :
    (∃ items, responseText providerKind parsed = (textOfItems items).map nonempty ∧
        (parsed.encodable = true → ∀ item ∈ items, item.encodable = true)) ∨
      ∃ found, responseText providerKind parsed = .ok found ∧
        (parsed.encodable = true → ∀ text ∈ found, validUtf8 text = true) := by
  unfold responseText
  split
  next =>
    exact .inr ⟨_, rfl, fun h text htext => parseChocolatefactoryText_valid h htext⟩
  next =>
    split
    next =>
      unfold parseGenericChatText
      split
      next => exact .inr ⟨none, rfl, fun _ => nofun⟩
      next choice hchoice =>
        have hcontent : ∀ v, ((objectField choice "message").bind fun message =>
            message.field? (ascii "content")) = some v → parsed.encodable = true →
              v.encodable = true := by
          intro v hv hparsed
          obtain ⟨choices, hchoices, hfirst⟩ := Option.bind_eq_some_iff.mp hchoice
          obtain ⟨message, hmessage, hv⟩ := Option.bind_eq_some_iff.mp hv
          have hencoded := arrayField_encodable hparsed hchoices choice (List.mem_of_head? hfirst)
          exact encodable_of_field? (objectField_encodable hencoded hmessage) hv
        split
        next found hfound =>
          refine .inr ⟨_, rfl, fun hparsed text htext => ?_⟩
          exact nonempty_eq_some htext ▸ hcontent _ hfound hparsed
        next items hfound =>
          refine .inl ⟨items, rfl, fun hparsed => ?_⟩
          have harr := hcontent _ hfound hparsed
          rwa [Json.encodable, Json.encodableItems_eq, List.all_eq_true] at harr
        next => exact .inr ⟨none, rfl, fun _ => nofun⟩
    next =>
      split
      next =>
        refine .inr ⟨_, rfl, fun hparsed text htext => ?_⟩
        obtain ⟨found, hfound, hsome⟩ := Option.bind_eq_some_iff.mp htext
        exact nonempty_eq_some hsome ▸ textField_valid hparsed hfound
      next =>
        split
        next =>
          unfold parseMechatropicMessagesText
          split
          next => exact .inr ⟨none, rfl, fun _ => nofun⟩
          next items hfound =>
            exact .inl ⟨items, rfl, fun hparsed => arrayField_encodable hparsed hfound⟩
        next => exact .inr ⟨none, rfl, fun _ => nofun⟩

theorem responseText_error {providerKind : Bytes} {parsed : Json} {what : Bytes}
    (h : responseText providerKind parsed = .error what) : validUtf8 what = true := by
  rcases responseText_cases providerKind parsed with ⟨items, hitems, -⟩ | ⟨found, hfound, -⟩
  · rw [hitems] at h
    cases hi : textOfItems items with
    | error e =>
      rw [hi] at h
      cases h
      exact textOfItems_error hi
    | ok text =>
      rw [hi] at h
      cases h
  · rw [hfound] at h
    cases h

/-- A text that is found in a value whose strings are UTF-8. -/
theorem responseText_valid {providerKind : Bytes} {parsed : Json}
    (hparsed : parsed.encodable = true) {text : Bytes}
    (h : responseText providerKind parsed = .ok (some text)) : validUtf8 text = true := by
  rcases responseText_cases providerKind parsed with ⟨items, hitems, hall⟩ | ⟨found, hfound, hall⟩
  · rw [hitems] at h
    cases hi : textOfItems items with
    | error e =>
      rw [hi] at h
      cases h
    | ok here =>
      rw [hi] at h
      have hsome : nonempty here = some text := Except.ok.inj h
      exact nonempty_eq_some hsome ▸ textOfItems_valid (hall hparsed) hi
  · rw [hfound] at h
    exact hall hparsed text (Except.ok.inj h)

section Messages
variable {parse : Bytes → Except Bytes Json}

theorem errorMessage_iff (providerKind : Bytes) (status : Int) (body : Bytes) :
    validUtf8 (parseCloudResponse parse providerKind status body).errorMessage = true ↔
      CleanResponse parse status body := by
  by_cases hstatus : status < 200 ∨ status ≥ 300
  · simp only [parseCloudResponse, CleanResponse, if_pos hstatus]
    rw [validUtf8_append_right]
    exact validUtf8_append (validUtf8_append (by decide) (validUtf8_dumpInt status)) (by decide)
  · simp only [parseCloudResponse, CleanResponse, if_neg hstatus]
    cases hparse : parse body with
    | error e =>
      constructor
      · rintro hvalid what ⟨⟩
        exact hvalid
      · exact fun h => h e rfl
    | ok parsed =>
      refine ⟨fun _ => nofun, fun _ => ?_⟩
      simp only [Except.bind]
      cases htext : responseText providerKind parsed with
      | error what => exact responseText_error htext
      | ok text =>
        cases text with
        | none => exact (by decide : validUtf8 missingText.errorMessage = true)
        | some text => rfl

theorem errorCode_valid (providerKind : Bytes) (status : Int) (body : Bytes) :
    validUtf8 (parseCloudResponse parse providerKind status body).errorCode = true := by
  have hclassified : ∀ code, classifyErrorFromBody parse providerKind status body = some code →
      validUtf8 code = true := by
    intro code hcode
    unfold classifyErrorFromBody at hcode
    repeat' split at hcode
    all_goals
      cases hcode
      decide
  have hstatus : validUtf8 (statusErrorCode status) = true := by
    unfold statusErrorCode
    repeat' split
    all_goals decide
  unfold parseCloudResponse
  split
  · cases hcode : classifyErrorFromBody parse providerKind status body with
    | none => exact hstatus
    | some code => exact hclassified code hcode
  · split
    · rfl
    · exact (by decide : validUtf8 missingText.errorCode = true)
    · exact (by decide : validUtf8 (ascii "malformed_response") = true)

/-- The error of a model is UTF-8 where what it quotes is. -/
theorem runCloudModel_error {provider : CloudProvider} {endpoint error : Bytes} {reply : Reply}
    (hkind : validUtf8 provider.kind = true) (hauth : validUtf8 provider.authType = true)
    (hclean : CleanReply parse reply)
    (h : runCloudModel parse provider endpoint reply = .error error) : validUtf8 error = true := by
  unfold runCloudModel at h
  split at h
  next =>
    cases h
    exact validUtf8_append (by decide) hkind
  next =>
    split at h
    next =>
      cases h
      decide
    next =>
      split at h
      next =>
        cases h
        exact validUtf8_append (by decide) hauth
      next =>
        cases reply with
        | transportFailed text =>
          cases h
          refine validUtf8_append (by decide) ?_
          split
          · decide
          · exact hclean
        | response status body =>
          have hmessage := (errorMessage_iff provider.kind status body).mpr hclean
          have hcode : validUtf8 (parseCloudResponse parse provider.kind status body).errorCode =
              true := errorCode_valid provider.kind status body
          dsimp only at h
          split at h
          next => cases h
          next =>
            cases h
            split
            · exact hmessage
            · exact validUtf8_append (validUtf8_append hcode (by decide)) hmessage

/-- A model's text is UTF-8, as the strings of a parsed response are. -/
theorem runCloudModel_ok (hparse : ∀ body parsed, parse body = .ok parsed → parsed.encodable = true)
    {provider : CloudProvider} {endpoint text : Bytes} {reply : Reply}
    (h : runCloudModel parse provider endpoint reply = .ok text) : validUtf8 text = true := by
  unfold runCloudModel at h
  split at h
  next => cases h
  next =>
    split at h
    next => cases h
    next =>
      split at h
      next => cases h
      next =>
        cases reply with
        | transportFailed error => cases h
        | response status body =>
          dsimp only at h
          split at h
          next found hfound =>
            cases h
            unfold parseCloudResponse at hfound
            split at hfound
            next => cases hfound
            next =>
              split at hfound
              next answer hanswer =>
                cases hfound
                cases hparsed : parse body with
                | error e =>
                  rw [hparsed] at hanswer
                  cases hanswer
                | ok parsed =>
                  rw [hparsed] at hanswer
                  exact responseText_valid (hparse body parsed hparsed) hanswer
              next => cases hfound
              next => cases hfound
          next => cases h

end Messages

end CloudClient

end HolderDaemon
