import HolderDaemon.MilestoneDateTime
import HolderDaemon.PercentCodecs
import HolderDaemon.S3Download
import HolderDaemon.S3SigV4

/-!
Requests to S3 (`storage/S3CompatibleProvider.cpp`): what is signed, what is sent, and where the
two agree.
-/

set_option autoImplicit false

open Bytes

namespace HolderDaemon

namespace S3Requests

open MilestoneDateTime (Tm decimalInt padded)
open PercentCodecs (percentEncode)
open GoogleDriveOAuth (percentDecode)
open RequestHead (Head LineFree isOws lower receive)
open Pieces (trim)
open Runners (rfind)
open S3Download (StorageError endpointUnavailable invalidObjectKey validKey)
open S3SigV4

structure S3CompatibleConfig where
  endpoint : Bytes
  region : Bytes
  bucket : Bytes
  addressingStyle : Bytes := ascii "path"
  allowInsecureLocalhost : Bool := false

structure S3Credentials where
  accessKeyId : Bytes
  secretAccessKey : Bytes
  sessionToken : Option Bytes := none

structure Endpoint where
  tls : Bool
  host : Bytes
  port : Bytes
  basePath : Bytes

def invalidConfiguration (message : String) : StorageError := ⟨.invalidConfiguration, ascii message⟩

/-- TLS, the port of the scheme, and what follows it. -/
def scheme (value : Bytes) : Option (Bool × Bytes × Bytes) :=
  if (ascii "https://").isPrefixOf value then some (true, ascii "443", value.drop 8)
  else if (ascii "http://").isPrefixOf value then some (false, ascii "80", value.drop 7)
  else none

/-- Taken apart at the last colon. -/
def hostPort (authority schemePort : Bytes) : Bytes × Bytes :=
  match rfind 58 authority with
  | none => (authority, schemePort)
  | some colon => (authority.take colon, authority.drop (colon + 1))

def parseEndpoint (value : Bytes) (allowInsecureLocalhost : Bool) : Except StorageError Endpoint :=
  match scheme value with
  | none => .error (invalidConfiguration "S3 endpoint must use https://")
  | some (tls, schemePort, remainder) =>
    let authority := remainder.takeWhile fun b => b ≠ 47
    let basePath := (remainder.dropWhile fun b => b ≠ 47).rdropWhile fun b => b = 47
    let host := (hostPort authority schemePort).1
    if host = [] then .error (invalidConfiguration "S3 endpoint host is empty")
    else
      let localhost := host = ascii "localhost" ∨ host = ascii "127.0.0.1" ∨ host = ascii "::1"
      if tls = false ∧ ¬ (localhost ∧ allowInsecureLocalhost = true) then
        .error (invalidConfiguration
          "unverified HTTP is allowed only for explicit localhost development")
      else .ok ⟨tls, host, (hostPort authority schemePort).2, basePath⟩

/-- A letter, a digit or one of `-_.~/`. -/
def isPathByte (b : UInt8) : Bool := QueryValues.isSafe b || b = 47

def uriEncodePath (value : Bytes) : Bytes := percentEncode isPathByte value

def putDay (utc : Tm) : Bytes := decimalInt utc.year ++ padded (utc.mon + 1) ++ padded utc.mday

/-- The day and the second, in UTC. -/
def dateNow (utc : Tm) : Bytes × Bytes :=
  (putDay utc,
    putDay utc ++ ascii "T" ++ padded utc.hour ++ padded utc.min ++ padded utc.sec ++ ascii "Z")

inductive Verb where
  | put | get | head | delete
  deriving DecidableEq

def Verb.text : Verb → Bytes
  | .put => ascii "PUT"
  | .get => ascii "GET"
  | .head => ascii "HEAD"
  | .delete => ascii "DELETE"

def verbFor (method : Bytes) : Option Verb :=
  if method = ascii "PUT" then some .put
  else if method = ascii "GET" then some .get
  else if method = ascii "HEAD" then some .head
  else if method = ascii "DELETE" then some .delete
  else none

inductive Failure where
  | storage (error : StorageError)
  | invalidArgument (what : Bytes)

/-- The constructor. -/
def construct (config : S3CompatibleConfig) (credentials : S3Credentials) : Except Failure Unit :=
  if config.endpoint = [] ∨ config.region = [] ∨ config.bucket = [] ∨
      credentials.accessKeyId = [] ∨ credentials.secretAccessKey = [] then
    .error (.storage
      (invalidConfiguration "S3 endpoint, region, bucket and credentials are required"))
  else if config.addressingStyle ≠ ascii "path" ∧ config.addressingStyle ≠ ascii "virtual_host" then
    .error (.storage
      (invalidConfiguration "S3 addressing_style must be path or virtual_host"))
  else
    match parseEndpoint config.endpoint config.allowInsecureLocalhost with
    | .error e => .error (.storage e)
    | .ok _ => .ok ()

structure S3CompatibleProvider where
  config : S3CompatibleConfig
  credentials : S3Credentials
  constructed : construct config credentials = .ok ()

section Addressing
variable (config : S3CompatibleConfig) (endpoint : Endpoint)

def isVirtualHost : Bool := config.addressingStyle = ascii "virtual_host"

def hostOf : Bytes :=
  if isVirtualHost config then config.bucket ++ ascii "." ++ endpoint.host else endpoint.host

/-- The bucket's part of the path. -/
def bucketPath : Bytes :=
  if isVirtualHost config then [] else ascii "/" ++ uriEncodePath config.bucket

def targetOf (objectKey : Bytes) : Bytes :=
  let target := endpoint.basePath ++ bucketPath config ++ ascii "/" ++ uriEncodePath objectKey
  if target.head? ≠ some 47 then 47 :: target else target

def hostHeader : Bytes :=
  let defaultPort := (endpoint.tls ∧ endpoint.port = ascii "443") ∨
    (endpoint.tls = false ∧ endpoint.port = ascii "80")
  hostOf config endpoint ++ if defaultPort then [] else ascii ":" ++ endpoint.port

end Addressing

/-- A token that is set and not empty. -/
def tokenOf (credentials : S3Credentials) : Option Bytes :=
  credentials.sessionToken.filter fun token => token ≠ []

def tokenField (credentials : S3Credentials) : List (Bytes × Bytes) :=
  match tokenOf credentials with
  | none => []
  | some token => [(tokenName, token)]

structure Upload where
  contentLength : UInt64
  content : Bytes

/-- The headers that are signed. -/
def headersOf (credentials : S3Credentials) (hostHeader payloadSha256 amzDate : Bytes) :
    List (Bytes × Bytes) :=
  [(hostName, hostHeader), (hashName, payloadSha256), (dateName, amzDate)] ++
    tokenField credentials

/-- The headers that are set, in the branch of an upload and in that without a body. -/
def fieldsOf (credentials : S3Credentials)
    (hostHeader payloadSha256 amzDate authorization : Bytes) : Option Upload → List (Bytes × Bytes)
  | some upload =>
    [(ascii "Host", hostHeader), (hashName, payloadSha256), (dateName, amzDate),
        (ascii "Authorization", authorization)] ++ tokenField credentials ++
      [(ascii "Content-Length", decimal upload.contentLength.toNat)]
  | none =>
    [(ascii "Host", hostHeader), (hashName, payloadSha256), (dateName, amzDate),
        (ascii "Authorization", authorization)] ++ tokenField credentials

/-- A request as it is written, with what was signed for it. -/
structure Sent where
  signing : S3SigningResult
  head : Head
  body : Bytes

def Sent.wire (sent : Sent) : Bytes := sent.head.written ++ sent.body

section Request
variable (sha256 : Bytes → Bytes) (hmac : Bytes → Bytes → Bytes) (p : S3CompatibleProvider)
  (utc : Tm)

def signingInput (endpoint : Endpoint) (method objectKey payloadSha256 : Bytes) :
    S3SigningInput where
  method := method
  canonicalUri := targetOf p.config endpoint objectKey
  canonicalQuery := []
  headers :=
    headersOf p.credentials (hostHeader p.config endpoint) payloadSha256 (dateNow utc).2
  payloadSha256 := payloadSha256
  region := p.config.region
  accessKeyId := p.credentials.accessKeyId
  secretAccessKey := p.credentials.secretAccessKey
  amzDate := (dateNow utc).2
  date := (dateNow utc).1

/-- `request` up to the answer. The file of an upload is open; a method without a verb fails in
each attempt. -/
def request (method objectKey : Bytes) (upload : Option Upload) (payloadSha256 : Bytes) :
    Except Failure Sent :=
  match parseEndpoint p.config.endpoint p.config.allowInsecureLocalhost with
  | .error e => .error (.storage e)
  | .ok endpoint =>
    if validKey objectKey = false then .error (.storage invalidObjectKey)
    else
      match signS3RequestV4 sha256 hmac
        (signingInput p utc endpoint method objectKey payloadSha256) with
      | .error what => .error (.invalidArgument what)
      | .ok signing =>
        match verbFor method with
        | none => .error (.storage (endpointUnavailable (ascii "unsupported S3 method")))
        | some verb =>
          .ok
            { signing := signing
              head :=
                { method := verb.text
                  target := targetOf p.config endpoint objectKey
                  fields := fieldsOf p.credentials (hostHeader p.config endpoint) payloadSha256
                    (dateNow utc).2 signing.authorization upload }
              body := (upload.map Upload.content).getD [] }

end Request

/-! What is to agree -/

/-- Visible characters, without a query or a fragment. -/
def IsUrl (s : Bytes) : Prop := ∀ b ∈ s, 33 ≤ b ∧ b ≤ 126 ∧ b ≠ 63 ∧ b ≠ 35

def isHexDigit (b : UInt8) : Bool :=
  (48 ≤ b && b ≤ 57) || (97 ≤ b && b ≤ 102) || (65 ≤ b && b ≤ 70)

section Agrees
variable (sha256 : Bytes → Bytes) (hmac : Bytes → Bytes → Bytes) (p : S3CompatibleProvider)
  (utc : Tm) (method objectKey payloadSha256 : Bytes)

/-- The request arrives as it was sent, and what was signed of it is what it has. -/
structure Agrees (sent : Sent) : Prop where
  arrives : receive sent.wire = some (sent.head.asRead, sent.body)
  accepted : Accepts sha256 hmac p.credentials.accessKeyId p.credentials.secretAccessKey
    p.config.region sent.head.asRead
  key : ∃ endpoint part,
    parseEndpoint p.config.endpoint p.config.allowInsecureLocalhost = .ok endpoint ∧
      sent.head.target = endpoint.basePath ++ bucketPath p.config ++ ascii "/" ++ part ∧
      percentDecode part = objectKey ∧
      ∀ other, targetOf p.config endpoint other = sent.head.target → other = objectKey
  signed : ∃ names : List Bytes,
    sent.signing.signedHeaders = [59].intercalate names ∧ names.Pairwise (· < ·) ∧
      (∀ name ∈ names, lower name = name ∧ name ∈ sent.head.asRead.fields.map Prod.fst) ∧
      sent.signing.canonicalRequest = recomputed names sent.head.asRead ∧
      ∀ upload, ∃ other, request sha256 hmac p utc method objectKey upload payloadSha256 =
          .ok other ∧
        other.signing = sent.signing ∧ other.head.target = sent.head.target ∧
        ∀ name ∈ names, received other.head.asRead name = received sent.head.asRead name

end Agrees

/-- No line end is in what goes into a header as it is: the token, the access key's id, the region
and, where the bucket names the host, the bucket. -/
structure Unbroken (p : S3CompatibleProvider) : Prop where
  token : ∀ token ∈ tokenOf p.credentials, LineFree token
  accessKeyId : LineFree p.credentials.accessKeyId
  region : LineFree p.config.region
  bucket : isVirtualHost p.config = true → LineFree p.config.bucket

theorem text_verbFor {method : Bytes} {verb : Verb} (h : verbFor method = some verb) :
    verb.text = method := by
  unfold verbFor at h
  split_ifs at h with hput hget hhead hdelete
  · cases h
    exact hput.symm
  · cases h
    exact hget.symm
  · cases h
    exact hhead.symm
  · cases h
    exact hdelete.symm

/-! Visible characters -/

def isVisible (b : UInt8) : Bool := 33 ≤ b && b ≤ 126

/-- Neither blanks nor control characters. -/
def Visible (s : Bytes) : Prop := ∀ b ∈ s, isVisible b = true

theorem Visible.append {s t : Bytes} (hs : Visible s) (ht : Visible t) : Visible (s ++ t) :=
  fun b hb => (List.mem_append.mp hb).elim (hs b) (ht b)

theorem Visible.notMem {s : Bytes} (h : Visible s) {b : UInt8} (hb : isVisible b = false) :
    b ∉ s := by
  intro hmem
  rw [h b hmem] at hb
  cases hb

theorem Visible.lineFree {s : Bytes} (h : Visible s) : LineFree s :=
  ⟨h.notMem (by decide), h.notMem (by decide)⟩

theorem not_isOws_of_isVisible {b : UInt8} (h : isVisible b = true) : isOws b = false := by
  rw [Bool.eq_false_iff]
  intro hows
  simp only [isOws, Bool.or_eq_true, decide_eq_true_eq] at hows
  rcases hows with rfl | rfl <;> revert h <;> decide

theorem Visible.trim {s : Bytes} (h : Visible s) : trim isOws s = s :=
  Pieces.trim_eq_self_iff.mpr
    ⟨fun b hb => not_isOws_of_isVisible (h b (List.mem_of_mem_head? hb)),
      fun b hb => not_isOws_of_isVisible (h b (List.mem_of_mem_getLast? hb))⟩

theorem isVisible_of_isDigit {b : UInt8} (h : isDigit b = true) : isVisible b = true := by
  simp only [isDigit, Bool.and_eq_true, decide_eq_true_eq] at h
  simp only [isVisible, Bool.and_eq_true, decide_eq_true_eq, UInt8.le_iff_toNat_le,
    UInt8.reduceToNat]
  omega

theorem visible_decimal (n : Nat) : Visible (decimal n) := fun b hb =>
  isVisible_of_isDigit (List.all_eq_true.mp (all_isDigit_decimal n) b hb)

theorem visible_padded (n : Nat) : Visible (padded n) := by
  refine Visible.append (fun b hb => ?_) (visible_decimal n)
  rw [(List.mem_replicate.mp hb).2]
  decide

theorem visible_putDay (utc : Tm) : Visible (putDay utc) := by
  have hyear : Visible (decimalInt utc.year) := by
    unfold decimalInt
    split
    · exact List.forall_mem_cons.mpr ⟨by decide, visible_decimal _⟩
    · exact visible_decimal _
  exact (hyear.append (visible_padded _)).append (visible_padded _)

theorem visible_dateNow (utc : Tm) : Visible (dateNow utc).2 := by
  have hletters : Visible (ascii "T") ∧ Visible (ascii "Z") :=
    ⟨List.all_eq_true.mp (by decide), List.all_eq_true.mp (by decide)⟩
  exact (((((visible_putDay utc).append hletters.1).append (visible_padded _)).append
    (visible_padded _)).append (visible_padded _)).append hletters.2

theorem visible_hexText (bytes : Bytes) : Visible (hexText bytes) := by
  have hdigit : ∀ n < 16, isVisible (Json.hexDigit n) = true := by decide
  intro b hb
  obtain ⟨c, _, hb⟩ := List.mem_flatMap.mp hb
  rcases List.mem_cons.mp hb with rfl | hb
  · exact hdigit _ (PercentCodecs.halves_lt c).1
  · rw [List.mem_singleton.mp hb]
    exact hdigit _ (PercentCodecs.halves_lt c).2

theorem visible_hash {payloadSha256 : Bytes} (h : ∀ b ∈ payloadSha256, isHexDigit b = true) :
    Visible payloadSha256 := by
  intro b hb
  have hdigit := h b hb
  simp only [isHexDigit, Bool.or_eq_true, Bool.and_eq_true, decide_eq_true_eq,
    UInt8.le_iff_toNat_le, UInt8.reduceToNat] at hdigit
  simp only [isVisible, Bool.and_eq_true, decide_eq_true_eq, UInt8.le_iff_toNat_le,
    UInt8.reduceToNat]
  omega

theorem IsUrl.visible {s : Bytes} (h : IsUrl s) : Visible s := by
  intro b hb
  obtain ⟨hlow, hhigh, _⟩ := h b hb
  rw [isVisible, Bool.and_eq_true]
  exact ⟨decide_eq_true hlow, decide_eq_true hhigh⟩

/-! Paths -/

theorem leavesLiterals_isPathByte : PercentCodecs.LeavesLiterals isPathByte := by
  intro b h
  refine ⟨?_, ?_⟩ <;> rintro rfl <;> revert h <;> decide

theorem percentDecode_uriEncodePath (value : Bytes) : percentDecode (uriEncodePath value) = value :=
  PercentCodecs.percentDecode_percentEncode leavesLiterals_isPathByte value

/-- What is encoded is visible and has no query. -/
theorem visible_uriEncodePath (value : Bytes) :
    Visible (uriEncodePath value) ∧ 63 ∉ uriEncodePath value := by
  have hdigit : ∀ n < 16, isVisible (EventService.hexUpper n) = true ∧
      EventService.hexUpper n ≠ 63 := by decide
  have hsafe : ∀ b : UInt8, isPathByte b = true → isVisible b = true ∧ b ≠ 63 := by
    intro b hb
    simp only [isPathByte, QueryValues.isSafe, Bool.or_eq_true, Bool.and_eq_true,
      decide_eq_true_eq, UInt8.le_iff_toNat_le, ← UInt8.toNat_inj] at hb
    simp only [isVisible, Bool.and_eq_true, decide_eq_true_eq, UInt8.le_iff_toNat_le, ne_eq,
      ← UInt8.toNat_inj]
    simp only [UInt8.reduceToNat] at *
    omega
  suffices hall : ∀ b ∈ uriEncodePath value, isVisible b = true ∧ b ≠ 63 from
    ⟨fun b hb => (hall b hb).1, fun hmem => (hall 63 hmem).2 rfl⟩
  intro b hb
  obtain ⟨c, _, hb⟩ := List.mem_flatMap.mp hb
  split at hb
  · rename_i hc
    rw [List.mem_singleton.mp hb]
    exact hsafe c hc
  · rcases List.mem_cons.mp hb with rfl | hb
    · decide
    · rcases List.mem_cons.mp hb with rfl | hb
      · exact hdigit _ (PercentCodecs.halves_lt c).1
      · rw [List.mem_singleton.mp hb]
        exact hdigit _ (PercentCodecs.halves_lt c).2

theorem hostPort_mem (authority schemePort : Bytes) :
    (∀ b ∈ (hostPort authority schemePort).1, b ∈ authority) ∧
      ∀ b ∈ (hostPort authority schemePort).2, b ∈ authority ∨ b ∈ schemePort := by
  unfold hostPort
  split
  · exact ⟨fun b hb => hb, fun b hb => .inr hb⟩
  · exact ⟨fun b hb => List.mem_of_mem_take hb, fun b hb => .inl (List.mem_of_mem_drop hb)⟩

section Target
variable {value : Bytes} {allowInsecureLocalhost : Bool} {endpoint : Endpoint}

/-- What a parsed endpoint has of its text: the path from its first slash. -/
theorem parseEndpoint_ok (h : parseEndpoint value allowInsecureLocalhost = .ok endpoint) :
    (∀ b ∈ endpoint.host, b ∈ value) ∧ (∀ b ∈ endpoint.port, b ∈ value ∨ isDigit b = true) ∧
      (∀ b ∈ endpoint.basePath, b ∈ value) ∧
      (endpoint.basePath ≠ [] → endpoint.basePath.head? = some 47) := by
  unfold parseEndpoint at h
  split at h
  · cases h
  · rename_i tls schemePort remainder hscheme
    have hremainder : (∀ b ∈ remainder, b ∈ value) ∧ schemePort.all isDigit = true := by
      unfold scheme at hscheme
      split at hscheme
      · cases hscheme
        exact ⟨fun b hb => List.mem_of_mem_drop hb, by decide⟩
      · split at hscheme
        · cases hscheme
          exact ⟨fun b hb => List.mem_of_mem_drop hb, by decide⟩
        · cases hscheme
    dsimp only at h
    split at h
    · cases h
    · split at h
      · cases h
      · cases h
        have hauthority : ∀ b ∈ remainder.takeWhile fun b => b ≠ 47, b ∈ value := fun b hb =>
          hremainder.1 b ((List.takeWhile_sublist _).subset hb)
        have hparts := hostPort_mem (remainder.takeWhile fun b => b ≠ 47) schemePort
        refine ⟨fun b hb => hauthority b (hparts.1 b hb), ?_, ?_, ?_⟩
        · exact fun b hb => (hparts.2 b hb).imp (hauthority b)
            (List.all_eq_true.mp hremainder.2 b)
        · intro b hb
          exact hremainder.1 b ((List.dropWhile_sublist _).subset
            ((List.rdropWhile_prefix _ _).subset hb))
        · intro hne
          dsimp only at hne ⊢
          obtain ⟨rest, hrest⟩ := List.rdropWhile_prefix (fun b : UInt8 => decide (b = 47))
            (remainder.dropWhile fun b => b ≠ 47)
          have hfirst := List.head?_dropWhile_not (fun b : UInt8 => decide (b ≠ 47)) remainder
          rw [← hrest, List.head?_append_of_ne_nil _ hne] at hfirst
          cases hhead : List.head? ((remainder.dropWhile fun b => b ≠ 47).rdropWhile
              fun b => b = 47) with
          | none => exact (hne (List.head?_eq_none_iff.mp hhead)).elim
          | some b =>
            rw [hhead] at hfirst
            simpa using hfirst

/-- No slash is put before a path that has one. -/
theorem targetOf_eq (h : parseEndpoint value allowInsecureLocalhost = .ok endpoint)
    (config : S3CompatibleConfig) (objectKey : Bytes) :
    targetOf config endpoint objectKey =
      endpoint.basePath ++ bucketPath config ++ ascii "/" ++ uriEncodePath objectKey := by
  have hslash : ascii "/" = [47] := rfl
  have hhead : (endpoint.basePath ++ bucketPath config ++ ascii "/" ++
      uriEncodePath objectKey).head? = some 47 := by
    by_cases hbase : endpoint.basePath = []
    · rw [hbase, bucketPath]
      split
      · rw [hslash]
        rfl
      · rw [hslash]
        rfl
    · rw [List.append_assoc, List.append_assoc, List.head?_append_of_ne_nil _ hbase]
      exact (parseEndpoint_ok h).2.2.2 hbase
  rw [targetOf]
  exact if_neg (not_not.mpr hhead)

end Target

/-- The target of a URL's endpoint is a word of the start line, without a query. -/
theorem word_targetOf {p : S3CompatibleProvider} (hurl : IsUrl p.config.endpoint)
    {endpoint : Endpoint}
    (h : parseEndpoint p.config.endpoint p.config.allowInsecureLocalhost = .ok endpoint)
    (objectKey : Bytes) :
    RequestHead.Word (targetOf p.config endpoint objectKey) ∧
      63 ∉ targetOf p.config endpoint objectKey := by
  have hslash : ascii "/" = [47] := rfl
  have hbase : Visible endpoint.basePath ∧ 63 ∉ endpoint.basePath :=
    ⟨fun b hb => hurl.visible b ((parseEndpoint_ok h).2.2.1 b hb),
      fun hmem => (hurl 63 ((parseEndpoint_ok h).2.2.1 63 hmem)).2.2.1 rfl⟩
  have hone : Visible [47] := List.forall_mem_singleton.mpr (by decide)
  have hkey := visible_uriEncodePath objectKey
  have hbucket : Visible (bucketPath p.config) ∧ 63 ∉ bucketPath p.config := by
    unfold bucketPath
    split
    · exact ⟨fun b hb => (List.not_mem_nil hb).elim, List.not_mem_nil⟩
    · have hname := visible_uriEncodePath p.config.bucket
      rw [hslash]
      exact ⟨hone.append hname.1, by simp [hname.2]⟩
  have htarget := targetOf_eq h p.config objectKey
  rw [hslash] at htarget
  have hvisible : Visible (targetOf p.config endpoint objectKey) := by
    rw [htarget]
    exact ((hbase.1.append hbucket.1).append hone).append hkey.1
  refine ⟨⟨?_, hvisible.notMem (by decide), hvisible.lineFree⟩, ?_⟩
  · rw [htarget]
    simp
  · rw [htarget]
    simp [hbase.2, hbucket.2, hkey.2]

/-! Names -/

def contentLengthName : Bytes := ascii "Content-Length"

/-- The names of the signed headers. -/
def namesOf (token : Bool) : List Bytes :=
  [hostName, hashName, dateName] ++ if token then [tokenName] else []

/-- The names as they are written. -/
def wireNames (token upload : Bool) : List Bytes :=
  [ascii "Host", hashName, dateName, ascii "Authorization"] ++
    (if token then [tokenName] else []) ++ if upload then [contentLengthName] else []

theorem namesOf_table : ∀ token : Bool,
    (namesOf token).Pairwise (· < ·) ∧ LineFree ([59].intercalate (namesOf token)) ∧
      ∀ name ∈ namesOf token, lower name = name ∧ name ≠ [] := by
  decide +kernel

theorem wireNames_table : ∀ token upload : Bool,
    ((wireNames token upload).map lower).Nodup ∧
      (∀ name ∈ wireNames token upload, RequestHead.isName name = true) ∧
      (∀ name ∈ (wireNames token upload).map lower,
        name = hostName ∨ (ascii "x-amz-").isPrefixOf name = true → name ∈ namesOf token) ∧
      ∀ name ∈ authorizationName :: namesOf token, name ∈ (wireNames token upload).map lower := by
  decide +kernel

theorem names_headersOf (credentials : S3Credentials) (hostHeader payloadSha256 amzDate : Bytes) :
    (headersOf credentials hostHeader payloadSha256 amzDate).map Prod.fst =
      namesOf (tokenOf credentials).isSome := by
  unfold headersOf tokenField namesOf
  cases tokenOf credentials <;> rfl

theorem names_fieldsOf (credentials : S3Credentials)
    (hostHeader payloadSha256 amzDate authorization : Bytes) (upload : Option Upload) :
    (fieldsOf credentials hostHeader payloadSha256 amzDate authorization upload).map Prod.fst =
      wireNames (tokenOf credentials).isSome upload.isSome := by
  cases upload <;> unfold fieldsOf tokenField wireNames <;>
    cases tokenOf credentials <;> rfl

section Fields
variable {credentials : S3Credentials} {hostHeader payloadSha256 amzDate : Bytes}

/-- Each signed header is set, the host's under a capital. -/
theorem exists_field (authorization : Bytes) (upload : Option Upload) {e : Bytes × Bytes}
    (h : e ∈ headersOf credentials hostHeader payloadSha256 amzDate) :
    ∃ name, lower name = e.1 ∧
      (name, e.2) ∈
        fieldsOf credentials hostHeader payloadSha256 amzDate authorization upload := by
  have hlower : ∀ name ∈ namesOf (tokenOf credentials).isSome, lower name = name := fun name hn =>
    ((namesOf_table _).2.2 name hn).1
  have hname : e.1 ∈ namesOf (tokenOf credentials).isSome := by
    rw [← names_headersOf credentials hostHeader payloadSha256 amzDate]
    exact List.mem_map_of_mem h
  rcases List.mem_cons.mp h with rfl | h
  · refine ⟨ascii "Host", rfl, ?_⟩
    cases upload <;> exact List.mem_cons_self
  · refine ⟨e.1, hlower e.1 hname, ?_⟩
    have hrest : e = (hashName, payloadSha256) ∨ e = (dateName, amzDate) ∨
        e ∈ tokenField credentials := by
      simpa using h
    cases upload <;> simp only [fieldsOf, List.mem_append, List.mem_cons] <;> tauto

/-- The values that are set, one by one; the length of an upload is in digits. -/
theorem lineFree_fieldsOf_iff (authorization : Bytes) (upload : Option Upload) :
    (∀ field ∈ fieldsOf credentials hostHeader payloadSha256 amzDate authorization upload,
        LineFree field.2) ↔
      (LineFree hostHeader ∧ LineFree payloadSha256 ∧ LineFree amzDate ∧
        LineFree authorization) ∧ ∀ token ∈ tokenOf credentials, LineFree token := by
  have hfour : (∀ field ∈ [(ascii "Host", hostHeader), (hashName, payloadSha256),
      (dateName, amzDate), (ascii "Authorization", authorization)], LineFree field.2) ↔
        LineFree hostHeader ∧ LineFree payloadSha256 ∧ LineFree amzDate ∧
          LineFree authorization := by
    simp
  have htoken : (∀ field ∈ tokenField credentials, LineFree field.2) ↔
      ∀ token ∈ tokenOf credentials, LineFree token := by
    unfold tokenField
    cases tokenOf credentials <;> simp
  cases upload with
  | none => rw [fieldsOf, List.forall_mem_append, hfour, htoken]
  | some upload =>
    rw [fieldsOf, List.forall_mem_append, List.forall_mem_append, List.forall_mem_singleton,
      hfour, htoken]
    exact and_iff_left (visible_decimal _).lineFree

/-- The names as they are received. -/
theorem names_asRead {r : Head} {authorization : Bytes} {upload : Option Upload}
    (hr : r.fields = fieldsOf credentials hostHeader payloadSha256 amzDate authorization upload) :
    r.asRead.fields.map Prod.fst =
      (wireNames (tokenOf credentials).isSome upload.isSome).map lower := by
  rw [← names_fieldsOf credentials hostHeader payloadSha256 amzDate authorization upload, ← hr,
    List.map_map]
  simp [RequestHead.Head.asRead]

theorem received_field {r : Head} {authorization : Bytes} {upload : Option Upload}
    (hr : r.fields = fieldsOf credentials hostHeader payloadSha256 amzDate authorization upload)
    {name value : Bytes} (h : (name, value) ∈ r.fields) :
    received r.asRead (lower name) = trim isOws value := by
  refine received_of_mem ?_ ?_
  · rw [names_asRead hr]
    exact (wireNames_table _ _).1
  · exact List.mem_map.mpr ⟨(name, value), h, rfl⟩

end Fields

/-! The values -/

theorem trim_authorizationOf (accessKeyId scope names : Bytes) (bytes : Bytes) :
    trim isOws (authorizationOf accessKeyId scope names (hexText bytes)) =
      authorizationOf accessKeyId scope names (hexText bytes) := by
  have hfirst : (ascii "AWS4-HMAC-SHA256 Credential=").head? = some 65 := rfl
  have hlast : (ascii ", Signature=").getLast? = some 61 := rfl
  refine Pieces.trim_eq_self_iff.mpr ⟨fun b hb => ?_, fun b hb => ?_⟩
  · simp only [authorizationOf, List.append_assoc, List.head?_append, hfirst, Option.some_or,
      Option.mem_some] at hb
    subst hb
    decide
  · simp only [authorizationOf, List.getLast?_append, hlast, Option.some_or] at hb
    cases hhex : (hexText bytes).getLast? with
    | none =>
      rw [hhex, Option.none_or, Option.mem_some] at hb
      subst hb
      decide
    | some last =>
      rw [hhex, Option.some_or, Option.mem_some] at hb
      subst hb
      exact not_isOws_of_isVisible (visible_hexText bytes last (List.mem_of_getLast? hhex))

theorem lineFree_authorizationOf_iff {accessKeyId date region names signature : Bytes}
    (hdate : LineFree date) (hnames : LineFree names) (hsignature : LineFree signature) :
    LineFree (authorizationOf accessKeyId (scopeOf date region) names signature) ↔
      LineFree accessKeyId ∧ LineFree region := by
  have htexts : LineFree (ascii "AWS4-HMAC-SHA256 Credential=") ∧ LineFree (ascii "/") ∧
      LineFree (ascii "/s3/aws4_request") ∧ LineFree (ascii ", SignedHeaders=") ∧
      LineFree (ascii ", Signature=") := by decide
  simp only [authorizationOf, scopeOf, RequestHead.lineFree_append, hdate, hnames, hsignature,
    htexts, true_and, and_true]

theorem lineFree_hostHeader_iff {p : S3CompatibleProvider} (hurl : IsUrl p.config.endpoint)
    {endpoint : Endpoint}
    (h : parseEndpoint p.config.endpoint p.config.allowInsecureLocalhost = .ok endpoint) :
    LineFree (hostHeader p.config endpoint) ↔
      (isVirtualHost p.config = true → LineFree p.config.bucket) := by
  obtain ⟨hhostMem, hportMem, _, _⟩ := parseEndpoint_ok h
  have hhost : LineFree endpoint.host :=
    Visible.lineFree fun b hb => hurl.visible b (hhostMem b hb)
  have hport : LineFree endpoint.port := by
    refine Visible.lineFree fun b hb => (hportMem b hb).elim (hurl.visible b) fun hdigit => ?_
    exact isVisible_of_isDigit hdigit
  have htexts : LineFree (ascii ".") ∧ LineFree (ascii ":") := by decide
  have hend : ∀ c : Prop, [Decidable c] →
      LineFree (if c then [] else ascii ":" ++ endpoint.port) := by
    intro c _
    split
    · exact ⟨List.not_mem_nil, List.not_mem_nil⟩
    · exact htexts.2.append hport
  unfold hostHeader hostOf
  dsimp only
  rw [RequestHead.lineFree_append, and_iff_left (hend _)]
  by_cases hvirtual : isVirtualHost p.config = true
  · simp only [hvirtual, if_true, RequestHead.lineFree_append, htexts, hhost, and_true,
      forall_const]
  · rw [if_neg hvirtual]
    exact iff_of_true hhost fun hyes => (hvirtual hyes).elim

/-! The signed request -/

section Signed
variable {sha256 : Bytes → Bytes} {hmac : Bytes → Bytes → Bytes} {p : S3CompatibleProvider}
  {utc : Tm} {method objectKey payloadSha256 : Bytes} {endpoint : Endpoint}
  {signing : S3SigningResult}

/-- What is signed: the three or four headers under their names, and the authorization. -/
theorem signing_ok
    (h : signS3RequestV4 sha256 hmac
      (signingInput p utc endpoint method objectKey payloadSha256) = .ok signing) :
    (dateNow utc).1.length = 8 ∧
      signing.signedHeaders = [59].intercalate (namesOf (tokenOf p.credentials).isSome) ∧
      signing.canonicalRequest =
        method ++ ascii "\n" ++ targetOf p.config endpoint objectKey ++ ascii "\n" ++ ascii "\n" ++
          headerLines ((headersOf p.credentials (hostHeader p.config endpoint) payloadSha256
            (dateNow utc).2).map fun e => (e.1, trimAndCollapse e.2)) ++ ascii "\n" ++
          signing.signedHeaders ++ ascii "\n" ++ payloadSha256 ∧
      signing.authorization =
        authorizationOf p.credentials.accessKeyId (scopeOf (dateNow utc).1 p.config.region)
          signing.signedHeaders
          (signature hmac p.credentials.secretAccessKey (dateNow utc).1 p.config.region
            (stringToSign sha256 (dateNow utc).2 (scopeOf (dateNow utc).1 p.config.region)
              signing.canonicalRequest)) := by
  obtain ⟨hdate, hnames, hcanonical, hauthorization⟩ := signS3RequestV4_ok h
  obtain ⟨hsorted, _, htable⟩ := namesOf_table (tokenOf p.credentials).isSome
  have hkeys := names_headersOf p.credentials (hostHeader p.config endpoint) payloadSha256
    (dateNow utc).2
  generalize hheaders : headersOf p.credentials (hostHeader p.config endpoint) payloadSha256
    (dateNow utc).2 = headers at hkeys
  have hinput : (signingInput p utc endpoint method objectKey payloadSha256).headers = headers :=
    hheaders
  have hmem : ∀ e ∈ headers, e.1 ∈ namesOf (tokenOf p.credentials).isSome := by
    intro e he
    rw [← hkeys]
    exact List.mem_map_of_mem he
  have hlower : (headers.map fun e => lower e.1) = headers.map Prod.fst :=
    List.map_congr_left fun e he => (htable e.1 (hmem e he)).1
  have hmap : headerMap headers = headers.map fun e => (e.1, trimAndCollapse e.2) := by
    rw [headerMap_eq]
    · exact List.map_congr_left fun e he => by rw [(htable e.1 (hmem e he)).1]
    · rw [hlower, hkeys]
      exact hsorted
  have hsigned : signing.signedHeaders =
      [59].intercalate (namesOf (tokenOf p.credentials).isSome) := by
    rw [hnames, hinput, hmap, signedNames_eq, List.map_map, ← hkeys]
    · rfl
    · intro signed hin
      obtain ⟨e, he, rfl⟩ := List.mem_map.mp hin
      exact (htable e.1 (hmem e he)).2
  refine ⟨hdate, hsigned, ?_, hauthorization⟩
  rw [hcanonical, hinput, hmap, signingInput, List.append_nil]

/-- The values of the signed headers as they are received. -/
theorem received_header {r : Head} {authorization : Bytes} {upload : Option Upload}
    (hr : r.fields = fieldsOf p.credentials (hostHeader p.config endpoint) payloadSha256
      (dateNow utc).2 authorization upload) :
    ∀ e ∈ headersOf p.credentials (hostHeader p.config endpoint) payloadSha256 (dateNow utc).2,
      received r.asRead e.1 = trim isOws e.2 := by
  intro e he
  obtain ⟨name, hname, hfield⟩ := exists_field authorization upload he
  rw [← hr] at hfield
  rw [← hname]
  exact received_field hr hfield

/-- The canonical request that is recomputed is the one that was signed. -/
theorem recomputed_eq_signed {r : Head} {authorization : Bytes} {upload : Option Upload}
    (h : signS3RequestV4 sha256 hmac
      (signingInput p utc endpoint method objectKey payloadSha256) = .ok signing)
    (hhash : ∀ b ∈ payloadSha256, isHexDigit b = true) (hmethod : r.method = method)
    (htarget : r.target = targetOf p.config endpoint objectKey)
    (hr : r.fields = fieldsOf p.credentials (hostHeader p.config endpoint) payloadSha256
      (dateNow utc).2 authorization upload) :
    recomputed (namesOf (tokenOf p.credentials).isSome) r.asRead = signing.canonicalRequest := by
  obtain ⟨_, hsigned, hcanonical, _⟩ := signing_ok h
  have hows : ∀ b, isOws b = true → Runners.isSpace b = true := by
    intro b hb
    simp only [isOws, Bool.or_eq_true, decide_eq_true_eq] at hb
    rcases hb with rfl | rfl <;> decide
  have hreceived := received_header hr
  have hwords : ∀ e ∈ headersOf p.credentials (hostHeader p.config endpoint) payloadSha256
      (dateNow utc).2, RequestHead.words Runners.isSpace (received r.asRead e.1) =
        RequestHead.words Runners.isSpace e.2 := by
    intro e he
    rw [hreceived e he, RequestHead.words_trim hows]
  have hlines := recomputed_lines hwords
  have hpayload : received r.asRead hashName = payloadSha256 := by
    rw [hreceived (hashName, payloadSha256) (by simp [headersOf]), (visible_hash hhash).trim]
  rw [names_headersOf] at hlines
  rw [recomputed, hlines, hpayload, hcanonical, hsigned]
  simp only [RequestHead.Head.asRead, hmethod, htarget]

/-- What a request is made of, once it is sent. -/
theorem request_ok {upload : Option Upload} {sent : Sent}
    (h : request sha256 hmac p utc method objectKey upload payloadSha256 = .ok sent) :
    ∃ endpoint, parseEndpoint p.config.endpoint p.config.allowInsecureLocalhost = .ok endpoint ∧
      signS3RequestV4 sha256 hmac
          (signingInput p utc endpoint method objectKey payloadSha256) = .ok sent.signing ∧
      (∃ verb, verbFor method = some verb) ∧ validKey objectKey = true ∧
      sent.head.method = method ∧
      sent.head.target = targetOf p.config endpoint objectKey ∧
      sent.head.fields = fieldsOf p.credentials (hostHeader p.config endpoint) payloadSha256
        (dateNow utc).2 sent.signing.authorization upload := by
  unfold request at h
  split at h
  · cases h
  · rename_i endpoint hendpoint
    split at h
    · cases h
    · rename_i hkey
      split at h
      · cases h
      · rename_i signing hsigning
        split at h
        · cases h
        · rename_i verb hverb
          cases h
          exact ⟨endpoint, hendpoint, hsigning, ⟨verb, hverb⟩, by simpa using hkey,
            text_verbFor hverb, rfl, rfl⟩

theorem word_text (verb : Verb) : RequestHead.Word verb.text := by
  have htable : verb.text ≠ [] ∧ 32 ∉ verb.text ∧ LineFree verb.text := by
    cases verb <;> decide
  exact ⟨htable.1, htable.2.1, htable.2.2⟩

/-- A head of the branches is fit to be sent, but for its values. -/
theorem sendable_head {upload : Option Upload} {sent : Sent} (hurl : IsUrl p.config.endpoint)
    (h : request sha256 hmac p utc method objectKey upload payloadSha256 = .ok sent) :
    RequestHead.Sendable sent.head := by
  obtain ⟨endpoint, hendpoint, _, ⟨verb, hverb⟩, _, hmethod, htarget, hfields⟩ := request_ok h
  refine ⟨?_, ?_, ?_⟩
  · rw [hmethod, ← text_verbFor hverb]
    exact word_text verb
  · rw [htarget]
    exact (word_targetOf hurl hendpoint objectKey).1
  · intro field hf
    refine (wireNames_table (tokenOf p.credentials).isSome upload.isSome).2.1 field.1 ?_
    rw [← names_fieldsOf p.credentials (hostHeader p.config endpoint) payloadSha256
      (dateNow utc).2 sent.signing.authorization upload, ← hfields]
    exact List.mem_map_of_mem hf

/-- No value of a head has a line end exactly where none was put into one. -/
theorem lineFree_fields_iff {upload : Option Upload} {sent : Sent}
    (hurl : IsUrl p.config.endpoint) (hhash : ∀ b ∈ payloadSha256, isHexDigit b = true)
    (h : request sha256 hmac p utc method objectKey upload payloadSha256 = .ok sent) :
    (∀ field ∈ sent.head.fields, LineFree field.2) ↔ Unbroken p := by
  obtain ⟨endpoint, hendpoint, hsigning, _, _, _, _, hfields⟩ := request_ok h
  obtain ⟨_, hsigned, _, hauthorization⟩ := signing_ok hsigning
  have hauth : LineFree sent.signing.authorization ↔
      LineFree p.credentials.accessKeyId ∧ LineFree p.config.region := by
    rw [hauthorization]
    refine lineFree_authorizationOf_iff ?_ ?_ ?_
    · exact (visible_putDay utc).lineFree
    · rw [hsigned]
      exact (namesOf_table _).2.1
    · exact (visible_hexText _).lineFree
  have hpayload := (visible_hash hhash).lineFree
  have hdate := (visible_dateNow utc).lineFree
  rw [hfields, lineFree_fieldsOf_iff, hauth, lineFree_hostHeader_iff hurl hendpoint]
  constructor
  · rintro ⟨⟨hbucket, -, -, hid, hregion⟩, htokens⟩
    exact ⟨htokens, hid, hregion, hbucket⟩
  · rintro ⟨htokens, hid, hregion, hbucket⟩
    exact ⟨⟨hbucket, hpayload, hdate, hid, hregion⟩, htokens⟩

theorem take_dateNow {utc : Tm} (h : (dateNow utc).1.length = 8) :
    (dateNow utc).2.take 8 = (dateNow utc).1 := by
  simp only [dateNow, List.append_assoc]
  exact List.take_left' h

/-- A verifier that has the secret accepts what is read of a sent head. -/
theorem accepts_asRead {upload : Option Upload} {sent : Sent} (hurl : IsUrl p.config.endpoint)
    (hhash : ∀ b ∈ payloadSha256, isHexDigit b = true)
    (h : request sha256 hmac p utc method objectKey upload payloadSha256 = .ok sent) :
    Accepts sha256 hmac p.credentials.accessKeyId p.credentials.secretAccessKey p.config.region
      sent.head.asRead := by
  obtain ⟨endpoint, hendpoint, hsigning, _, _, hmethod, htarget, hfields⟩ := request_ok h
  obtain ⟨hdate, hsigned, _, hauthorization⟩ := signing_ok hsigning
  obtain ⟨_, _, hmust, hcame⟩ := wireNames_table (tokenOf p.credentials).isSome upload.isSome
  have hnames := names_asRead hfields
  refine ⟨namesOf (tokenOf p.credentials).isSome, ?_, ?_, by simp [namesOf], ?_, ?_⟩
  · intro field hf
    refine hmust field.1 ?_
    rw [← hnames]
    exact List.mem_map_of_mem hf
  · intro name hn
    rw [hnames]
    exact hcame name (List.mem_cons_of_mem _ hn)
  · change 63 ∉ sent.head.target
    rw [htarget]
    exact (word_targetOf hurl hendpoint objectKey).2
  · have hamzDate : received sent.head.asRead dateName = (dateNow utc).2 := by
      rw [received_header hfields (dateName, (dateNow utc).2) (by simp [headersOf]),
        (visible_dateNow utc).trim]
    have hname : lower (ascii "Authorization") = authorizationName := rfl
    have hreceived : received sent.head.asRead authorizationName =
        trim isOws sent.signing.authorization := by
      rw [← hname]
      refine received_field hfields ?_
      rw [hfields]
      cases upload <;> simp [fieldsOf]
    have hcanonical := recomputed_eq_signed hsigning hhash hmethod htarget hfields
    dsimp only
    rw [hreceived, hamzDate, take_dateNow hdate, hcanonical, ← hsigned, hauthorization]
    exact trim_authorizationOf ..

/-- The path after the bucket is the key, and no other one's. -/
theorem target_key (objectKey : Bytes)
    (hendpoint : parseEndpoint p.config.endpoint p.config.allowInsecureLocalhost = .ok endpoint) :
    ∃ part, targetOf p.config endpoint objectKey =
        endpoint.basePath ++ bucketPath p.config ++ ascii "/" ++ part ∧
      percentDecode part = objectKey ∧
      ∀ other, targetOf p.config endpoint other = targetOf p.config endpoint objectKey →
        other = objectKey := by
  refine ⟨uriEncodePath objectKey, targetOf_eq hendpoint p.config objectKey,
    percentDecode_uriEncodePath objectKey, fun other hsame => ?_⟩
  rw [targetOf_eq hendpoint, targetOf_eq hendpoint] at hsame
  have hparts := List.append_cancel_left hsame
  rw [← percentDecode_uriEncodePath other, hparts, percentDecode_uriEncodePath]

/-- With an upload or without one, what is signed is set the same. -/
theorem exists_branch {upload : Option Upload} {sent : Sent}
    (h : request sha256 hmac p utc method objectKey upload payloadSha256 = .ok sent)
    (upload' : Option Upload) :
    ∃ other, request sha256 hmac p utc method objectKey upload' payloadSha256 = .ok other ∧
      other.signing = sent.signing ∧ other.head.target = sent.head.target ∧
      ∀ name ∈ namesOf (tokenOf p.credentials).isSome,
        received other.head.asRead name = received sent.head.asRead name := by
  obtain ⟨endpoint, hendpoint, hsigning, ⟨verb, hverb⟩, hkey, _, htarget, hfields⟩ := request_ok h
  refine ⟨⟨sent.signing, ⟨verb.text, targetOf p.config endpoint objectKey,
      fieldsOf p.credentials (hostHeader p.config endpoint) payloadSha256 (dateNow utc).2
        sent.signing.authorization upload'⟩, (upload'.map Upload.content).getD []⟩,
    ?_, rfl, htarget.symm, ?_⟩
  · simp only [request, hendpoint, hkey, hsigning, hverb, Bool.true_eq_false, if_false]
  · intro name hname
    rw [← names_headersOf p.credentials (hostHeader p.config endpoint) payloadSha256
      (dateNow utc).2] at hname
    obtain ⟨e, he, rfl⟩ := List.mem_map.mp hname
    rw [received_header rfl e he, received_header hfields e he]

/-- Sent with a hash in hexadecimal to a URL's endpoint, a request agrees with its signature
exactly where no line end is put into a header. -/
theorem request_agrees_iff (hurl : IsUrl p.config.endpoint)
    (hhash : ∀ b ∈ payloadSha256, isHexDigit b = true) {upload : Option Upload} {sent : Sent}
    (h : request sha256 hmac p utc method objectKey upload payloadSha256 = .ok sent) :
    Agrees sha256 hmac p utc method objectKey payloadSha256 sent ↔ Unbroken p := by
  have harrives := RequestHead.receive_head_iff (sendable_head hurl h) sent.body
  rw [lineFree_fields_iff hurl hhash h] at harrives
  constructor
  · exact fun hagrees => harrives.mp hagrees.arrives
  · intro hunbroken
    obtain ⟨endpoint, hendpoint, hsigning, _, _, hmethod, htarget, hfields⟩ := request_ok h
    obtain ⟨_, hsigned, _, _⟩ := signing_ok hsigning
    obtain ⟨hsorted, _, htable⟩ := namesOf_table (tokenOf p.credentials).isSome
    refine ⟨harrives.mpr hunbroken, accepts_asRead hurl hhash h, ?_, ?_⟩
    · obtain ⟨part, hpart, hdecoded, hother⟩ := target_key objectKey hendpoint
      rw [← htarget] at hpart hother
      exact ⟨endpoint, part, hendpoint, hpart, hdecoded, hother⟩
    · refine ⟨namesOf (tokenOf p.credentials).isSome, hsigned, hsorted, fun name hn => ?_,
        (recomputed_eq_signed hsigning hhash hmethod htarget hfields).symm, exists_branch h⟩
      refine ⟨(htable name hn).1, ?_⟩
      rw [names_asRead hfields]
      exact (wireNames_table _ _).2.2.2 name (List.mem_cons_of_mem _ hn)

end Signed

/-- The digests of the example below: SHA-256 of its canonical request, and the keys and the
signature that HMAC-SHA-256 makes along the way. -/
def exampleDigest : Bytes :=
  [42, 135, 220, 162, 70, 250, 25, 253, 240, 198, 217, 60, 213, 219, 255, 212, 206, 222, 248, 71,
    73, 238, 154, 169, 253, 173, 40, 176, 104, 210, 87, 220]

def exampleDateKey : Bytes :=
  [74, 230, 150, 45, 60, 55, 59, 52, 246, 254, 66, 10, 232, 75, 74, 77, 109, 21, 220, 140, 213, 92,
    239, 43, 69, 10, 209, 21, 147, 92, 148, 74]

def exampleRegionKey : Bytes :=
  [218, 148, 214, 53, 32, 188, 107, 182, 243, 198, 29, 161, 253, 53, 60, 146, 59, 73, 132, 75, 185,
    33, 92, 34, 141, 15, 33, 109, 135, 34, 141, 192]

def exampleServiceKey : Bytes :=
  [18, 30, 60, 138, 149, 200, 5, 85, 201, 182, 253, 1, 144, 76, 76, 23, 158, 245, 187, 194, 16, 4,
    9, 198, 161, 72, 81, 183, 254, 64, 204, 16]

def exampleSigningKey : Bytes :=
  [55, 8, 104, 208, 125, 38, 36, 7, 184, 157, 93, 250, 234, 124, 112, 69, 225, 195, 147, 74, 122,
    99, 71, 99, 123, 23, 78, 15, 225, 135, 71, 117]

def exampleSignature : Bytes :=
  [142, 123, 113, 13, 237, 108, 190, 233, 33, 37, 198, 76, 239, 222, 84, 166, 160, 73, 58, 46, 32,
    251, 53, 247, 173, 6, 109, 61, 231, 99, 251, 205]

def exampleSha256 (_ : Bytes) : Bytes := exampleDigest

def exampleHmac (_ value : Bytes) : Bytes :=
  if value = ascii "20130524" then exampleDateKey
  else if value = ascii "us-east-1" then exampleRegionKey
  else if value = ascii "s3" then exampleServiceKey
  else if value = ascii "aws4_request" then exampleSigningKey
  else exampleSignature

def exampleProvider (token : String) : S3CompatibleProvider where
  config :=
    { endpoint := ascii "https://s3.example.com"
      region := ascii "us-east-1"
      bucket := ascii "b" }
  credentials :=
    { accessKeyId := ascii "KEY"
      secretAccessKey := ascii "SECRET"
      sessionToken := some (ascii token) }
  constructed := by rfl

def exampleTime : Tm := ⟨2013, 4, 24, 0, 0, 0⟩

def emptySha256 : Bytes :=
  ascii "e3b0c44298fc1c149afbf4c8996fb92427ae41e4649b934ca495991b7852b855"

theorem isUrl_exampleProvider (token : String) :
    IsUrl (exampleProvider token).config.endpoint := by
  change ∀ b ∈ ascii "https://s3.example.com", 33 ≤ b ∧ b ≤ 126 ∧ b ≠ 63 ∧ b ≠ 35
  decide +kernel

theorem isHexDigit_emptySha256 : ∀ b ∈ emptySha256, isHexDigit b = true := by decide +kernel

theorem request_agrees_iff_token :
    ∃ sent, request exampleSha256 exampleHmac (exampleProvider "a token") exampleTime (ascii "GET")
        (ascii "k k") none emptySha256 = .ok sent ∧
      Agrees exampleSha256 exampleHmac (exampleProvider "a token") exampleTime (ascii "GET")
        (ascii "k k") emptySha256 sent := by
  obtain ⟨sent, h⟩ : ∃ sent, request exampleSha256 exampleHmac (exampleProvider "a token")
      exampleTime (ascii "GET") (ascii "k k") none emptySha256 = .ok sent := ⟨_, rfl⟩
  have htoken : ∀ token ∈ tokenOf (exampleProvider "a token").credentials, LineFree token := by
    intro token ht
    cases ht
    decide
  have hunbroken : Unbroken (exampleProvider "a token") := by
    refine ⟨htoken, ?_, ?_, fun hvirtual => by cases hvirtual⟩
    · change LineFree (ascii "KEY")
      decide
    · change LineFree (ascii "us-east-1")
      decide
  exact ⟨sent, h, (request_agrees_iff (isUrl_exampleProvider _) isHexDigit_emptySha256 h).mpr
    hunbroken⟩

/-- A token with a line end in it is signed in one line and sent in two: what arrives is no
request. -/
theorem request_breaks_token :
    (request exampleSha256 exampleHmac (exampleProvider "a\x0d\nb") exampleTime (ascii "GET")
        (ascii "k k") none emptySha256).toOption.map (fun sent => receive sent.wire) = some none ∧
      ¬ ∃ sha256 hmac, ∀ sent,
        request sha256 hmac (exampleProvider "a\x0d\nb") exampleTime (ascii "GET") (ascii "k k")
            none emptySha256 = .ok sent →
          Agrees sha256 hmac (exampleProvider "a\x0d\nb") exampleTime (ascii "GET") (ascii "k k")
            emptySha256 sent := by
  refine ⟨by decide +kernel, ?_⟩
  rintro ⟨sha256, hmac, hall⟩
  obtain ⟨sent, h⟩ : ∃ sent, request sha256 hmac (exampleProvider "a\x0d\nb") exampleTime
      (ascii "GET") (ascii "k k") none emptySha256 = .ok sent := ⟨_, rfl⟩
  have hurl := isUrl_exampleProvider "a\x0d\nb"
  have harrives := (RequestHead.receive_head_iff (sendable_head hurl h) sent.body).mp
    (hall sent h).arrives
  have htoken := ((lineFree_fields_iff hurl isHexDigit_emptySha256 h).mp harrives).token
    (ascii "a\x0d\nb") rfl
  exact absurd htoken (by decide)

end S3Requests

end HolderDaemon
