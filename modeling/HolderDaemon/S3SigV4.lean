import HolderDaemon.Json
import HolderDaemon.RequestHead
import HolderDaemon.RunnerRegistry

/-!
Signing of S3 requests (`storage/S3SigV4.cpp`), and what a verifier makes of the request that it
receives.
-/

set_option autoImplicit false

open Bytes

namespace HolderDaemon

namespace S3SigV4

open Pieces (trim)
open RequestHead (Head intercalate_cons isOws lower words words_trim)
open Runners (isSpace)

def hexText (bytes : Bytes) : Bytes :=
  bytes.flatMap fun b => [Json.hexDigit (b.toNat / 16), Json.hexDigit (b.toNat % 16)]

/-- What `find_first_not_of` and `find_last_not_of` skip. -/
def isTrimmed (b : UInt8) : Bool := b = 32 || b = 9 || b = 13 || b = 10

/-- The loop of `trim_and_collapse`. -/
def collapse (outEmpty whitespace : Bool) : Bytes → Bytes
  | [] => []
  | b :: value =>
    if isSpace b then collapse outEmpty true value
    else if whitespace && !outEmpty then 32 :: b :: collapse false false value
    else b :: collapse false false value

def trimAndCollapse (value : Bytes) : Bytes := collapse true false (trim isTrimmed value)

/-- `std::map`, as its pairs in the order of the names. -/
def mapSet (name value : Bytes) : List (Bytes × Bytes) → List (Bytes × Bytes)
  | [] => [(name, value)]
  | e :: rest =>
    if name < e.1 then (name, value) :: e :: rest
    else if name = e.1 then (name, value) :: rest
    else e :: mapSet name value rest

structure S3SigningInput where
  method : Bytes
  canonicalUri : Bytes
  canonicalQuery : Bytes
  headers : List (Bytes × Bytes)
  payloadSha256 : Bytes
  region : Bytes
  accessKeyId : Bytes
  secretAccessKey : Bytes
  amzDate : Bytes
  date : Bytes

structure S3SigningResult where
  authorization : Bytes
  canonicalRequest : Bytes
  stringToSign : Bytes
  signedHeaders : Bytes

def hostName : Bytes := ascii "host"
def hashName : Bytes := ascii "x-amz-content-sha256"
def dateName : Bytes := ascii "x-amz-date"
def tokenName : Bytes := ascii "x-amz-security-token"
def authorizationName : Bytes := ascii "authorization"

def headerMap (headers : List (Bytes × Bytes)) : List (Bytes × Bytes) :=
  headers.foldl (fun m h => mapSet (lower h.1) (trimAndCollapse h.2) m) []

def headerLines (headers : List (Bytes × Bytes)) : Bytes :=
  headers.flatMap fun h => h.1 ++ ascii ":" ++ h.2 ++ ascii "\n"

def signedNames (headers : List (Bytes × Bytes)) : Bytes :=
  headers.foldl (fun names h => (if names = [] then names else names ++ ascii ";") ++ h.1) []

def scopeOf (date region : Bytes) : Bytes :=
  date ++ ascii "/" ++ region ++ ascii "/s3/aws4_request"

def authorizationOf (accessKeyId scope names signature : Bytes) : Bytes :=
  ascii "AWS4-HMAC-SHA256 Credential=" ++ accessKeyId ++ ascii "/" ++ scope ++
    ascii ", SignedHeaders=" ++ names ++ ascii ", Signature=" ++ signature

section Digests
variable (sha256 : Bytes → Bytes) (hmac : Bytes → Bytes → Bytes)

def stringToSign (amzDate scope canonicalRequest : Bytes) : Bytes :=
  ascii "AWS4-HMAC-SHA256\n" ++ amzDate ++ ascii "\n" ++ scope ++ ascii "\n" ++
    hexText (sha256 canonicalRequest)

def signature (secretAccessKey date region text : Bytes) : Bytes :=
  let dateKey := hmac (ascii "AWS4" ++ secretAccessKey) date
  let regionKey := hmac dateKey region
  let serviceKey := hmac regionKey (ascii "s3")
  let signingKey := hmac serviceKey (ascii "aws4_request")
  hexText (hmac signingKey text)

/-- The exception is `std::invalid_argument`. -/
def signS3RequestV4 (input : S3SigningInput) : Except Bytes S3SigningResult :=
  if input.method = [] ∨ input.canonicalUri = [] ∨ input.region = [] ∨ input.accessKeyId = [] ∨
      input.secretAccessKey = [] ∨ input.amzDate = [] ∨ input.date.length ≠ 8 ∨
      input.payloadSha256.length ≠ 64 then
    .error (ascii "incomplete S3 signing input")
  else
    let headers := headerMap input.headers
    if (headers.lookup hostName).isNone ∨ (headers.lookup dateName).isNone ∨
        (headers.lookup hashName).isNone then
      .error (ascii "S3 signing headers are incomplete")
    else
      let signedHeaders := signedNames headers
      let canonicalRequest :=
        input.method ++ ascii "\n" ++ input.canonicalUri ++ ascii "\n" ++ input.canonicalQuery ++
          ascii "\n" ++ headerLines headers ++ ascii "\n" ++ signedHeaders ++ ascii "\n" ++
          input.payloadSha256
      let scope := scopeOf input.date input.region
      let text := stringToSign sha256 input.amzDate scope canonicalRequest
      .ok
        { authorization := authorizationOf input.accessKeyId scope signedHeaders
            (signature hmac input.secretAccessKey input.date input.region text)
          canonicalRequest := canonicalRequest
          stringToSign := text
          signedHeaders := signedHeaders }

/-! The verifier -/

/-- All that was received under a name. -/
def received (r : Head) (name : Bytes) : Bytes :=
  [44].intercalate ((r.fields.filter fun field => field.1 = name).map Prod.snd)

/-- The canonical request of a request as received, without a query, under the signed names: the
words of each value, with one blank between them. -/
def recomputed (names : List Bytes) (r : Head) : Bytes :=
  r.method ++ ascii "\n" ++ r.target ++ ascii "\n" ++ ascii "\n" ++
    (names.flatMap fun name =>
      name ++ ascii ":" ++ [32].intercalate (words isSpace (received r name)) ++ ascii "\n") ++
    ascii "\n" ++ [59].intercalate names ++ ascii "\n" ++ received r hashName

/-- The authorization is that of the request, signed anew under the names that it gives; these
have every header that is to be signed, and each was received. -/
def Accepts (accessKeyId secretAccessKey region : Bytes) (r : Head) : Prop :=
  ∃ names : List Bytes,
    (∀ field ∈ r.fields, field.1 = hostName ∨ (ascii "x-amz-").isPrefixOf field.1 = true →
      field.1 ∈ names) ∧
    (∀ name ∈ names, name ∈ r.fields.map Prod.fst) ∧ hostName ∈ names ∧
    63 ∉ r.target ∧
    let amzDate := received r dateName
    let date := amzDate.take 8
    let scope := scopeOf date region
    received r authorizationName =
      authorizationOf accessKeyId scope ([59].intercalate names)
        (signature hmac secretAccessKey date region
          (stringToSign sha256 amzDate scope (recomputed names r)))

end Digests

/-! Values -/

/-- The words after the first piece, each behind a blank. -/
def spaced (pieces : List Bytes) : Bytes :=
  (pieces.filter fun word => word ≠ []).flatMap fun word => 32 :: word

theorem collapse_open (value : Bytes) :
    ∃ head rest, value.splitOnP isSpace = head :: rest ∧
      collapse false false value = head ++ spaced rest ∧
      collapse false true value = spaced (head :: rest) := by
  induction value with
  | nil => exact ⟨[], [], rfl, rfl, rfl⟩
  | cons b value ih =>
    obtain ⟨head, rest, hsplit, hword, hblank⟩ := ih
    rw [List.splitOnP_cons_eq_if_modifyHead, hsplit, collapse, collapse]
    by_cases hb : isSpace b = true
    · simp only [if_pos hb]
      refine ⟨[], head :: rest, rfl, hblank, ?_⟩
      rw [hblank]
      rfl
    · simp only [if_neg hb]
      refine ⟨b :: head, rest, rfl, ?_, ?_⟩
      · simp [hword]
      · simp [hword, spaced]

theorem collapse_eq (whitespace : Bool) (value : Bytes) :
    collapse true whitespace value = [32].intercalate (words isSpace value) := by
  induction value generalizing whitespace with
  | nil => rfl
  | cons b value ih =>
    rw [collapse]
    by_cases hb : isSpace b = true
    · rw [if_pos hb, ih, RequestHead.words_cons_blank hb]
    · obtain ⟨head, rest, hsplit, hword, _⟩ := collapse_open value
      have hwords : words isSpace (b :: value) =
          (b :: head) :: rest.filter fun word => word ≠ [] := by
        rw [words, List.splitOnP_cons_eq_if_modifyHead, if_neg hb, hsplit]
        rfl
      rw [if_neg hb, hwords, intercalate_cons, hword]
      simp [spaced]

/-- What is signed of a value are its words. -/
theorem trimAndCollapse_eq (value : Bytes) :
    trimAndCollapse value = [32].intercalate (words isSpace value) := by
  rw [trimAndCollapse, collapse_eq, words_trim]
  intro b hb
  simp only [isTrimmed, Bool.or_eq_true, decide_eq_true_eq] at hb
  rcases hb with ((rfl | rfl) | rfl) | rfl <;> decide

example : trimAndCollapse (ascii "  two\t \n words  ") = ascii "two words" := by decide

/-! Names -/

theorem mapSet_last {name : Bytes} {m : List (Bytes × Bytes)} (h : ∀ e ∈ m, e.1 < name)
    (value : Bytes) : mapSet name value m = m ++ [(name, value)] := by
  induction m with
  | nil => rfl
  | cons e m ih =>
    have hlt := h e List.mem_cons_self
    have hnot : ¬ name < e.1 := List.lt_asymm hlt
    have hne : ¬ name = e.1 := fun heq => hnot (heq ▸ hlt)
    rw [mapSet, if_neg hnot, if_neg hne, ih fun e he => h e (List.mem_cons_of_mem _ he),
      List.cons_append]

/-- Headers given in order stay in it. -/
theorem headerMap_eq {headers : List (Bytes × Bytes)}
    (h : (headers.map fun h => lower h.1).Pairwise (· < ·)) :
    headerMap headers = headers.map fun h => (lower h.1, trimAndCollapse h.2) := by
  have hfold : ∀ (headers m : List (Bytes × Bytes)),
      (headers.map fun h => lower h.1).Pairwise (· < ·) →
      (∀ e ∈ m, ∀ h ∈ headers, e.1 < lower h.1) →
      headers.foldl (fun m h => mapSet (lower h.1) (trimAndCollapse h.2) m) m =
        m ++ headers.map fun h => (lower h.1, trimAndCollapse h.2) := by
    intro headers
    induction headers with
    | nil => intro m _ _; simp
    | cons first headers ih =>
      intro m hsorted hm
      rw [List.map_cons, List.pairwise_cons] at hsorted
      rw [List.foldl_cons, mapSet_last fun e he => hm e he first List.mem_cons_self,
        ih _ hsorted.2, List.append_assoc, List.map_cons, List.singleton_append]
      intro e he h hh
      rcases List.mem_append.mp he with hold | hnew
      · exact hm e hold h (List.mem_cons_of_mem _ hh)
      · rw [List.mem_singleton.mp hnew]
        exact hsorted.1 (lower h.1) (List.mem_map_of_mem hh)
  exact hfold headers [] h fun e he => by cases he

theorem signedNames_eq {headers : List (Bytes × Bytes)} (h : ∀ e ∈ headers, e.1 ≠ []) :
    signedNames headers = [59].intercalate (headers.map Prod.fst) := by
  have hfold : ∀ (headers : List (Bytes × Bytes)) (names : Bytes), names ≠ [] →
      headers.foldl (fun names h => (if names = [] then names else names ++ ascii ";") ++ h.1)
          names =
        names ++ (headers.map Prod.fst).flatMap fun name => 59 :: name := by
    intro headers
    induction headers with
    | nil => intro names _; simp
    | cons first headers ih =>
      intro names hnames
      have hsemi : ascii ";" = [59] := rfl
      rw [List.foldl_cons, if_neg hnames, ih _ (by simp [hnames]), hsemi]
      simp
  cases headers with
  | nil => rfl
  | cons first headers =>
    rw [signedNames, List.foldl_cons, if_pos rfl, List.nil_append,
      hfold headers first.1 (h first List.mem_cons_self), List.map_cons, intercalate_cons]

/-! Signing and verifying -/

section Verified
variable {sha256 : Bytes → Bytes} {hmac : Bytes → Bytes → Bytes}

/-- What signing makes of its input. -/
theorem signS3RequestV4_ok {input : S3SigningInput} {result : S3SigningResult}
    (h : signS3RequestV4 sha256 hmac input = .ok result) :
    input.date.length = 8 ∧
      result.signedHeaders = signedNames (headerMap input.headers) ∧
      result.canonicalRequest =
        input.method ++ ascii "\n" ++ input.canonicalUri ++ ascii "\n" ++ input.canonicalQuery ++
          ascii "\n" ++ headerLines (headerMap input.headers) ++ ascii "\n" ++
          result.signedHeaders ++ ascii "\n" ++ input.payloadSha256 ∧
      result.authorization =
        authorizationOf input.accessKeyId (scopeOf input.date input.region) result.signedHeaders
          (signature hmac input.secretAccessKey input.date input.region
            (stringToSign sha256 input.amzDate (scopeOf input.date input.region)
              result.canonicalRequest)) := by
  unfold signS3RequestV4 at h
  split at h
  · cases h
  · rename_i hcomplete
    simp only [not_or, not_not] at hcomplete
    dsimp only at h
    split at h
    · cases h
    · cases h
      exact ⟨hcomplete.2.2.2.2.2.2.1, rfl, rfl, rfl⟩

/-- A header that came once is received as it came. -/
theorem received_of_mem {r : Head} (h : (r.fields.map Prod.fst).Nodup) {name value : Bytes}
    (hmem : (name, value) ∈ r.fields) : received r name = value := by
  have hfilter : ∀ fields : List (Bytes × Bytes), (fields.map Prod.fst).Nodup →
      (name, value) ∈ fields → fields.filter (fun field => field.1 = name) = [(name, value)] := by
    intro fields
    induction fields with
    | nil => intro _ hmem; cases hmem
    | cons first fields ih =>
      intro hnodup hmem
      rw [List.map_cons, List.nodup_cons] at hnodup
      rcases List.mem_cons.mp hmem with rfl | hin
      · rw [List.filter_cons_of_pos (by simp), List.filter_eq_nil_iff.mpr]
        intro field hf heq
        exact hnodup.1 (List.mem_map.mpr ⟨field, hf, of_decide_eq_true heq⟩)
      · have hne : first.1 ≠ name := by
          rintro heq
          rw [heq] at hnodup
          exact hnodup.1 (List.mem_map.mpr ⟨(name, value), hin, rfl⟩)
        rw [List.filter_cons_of_neg (by simpa using hne), ih hnodup.2 hin]
  rw [received, hfilter r.fields h hmem]
  simp

/-- The lines that are recomputed are those that were signed, where each value was received with
the words that it was signed with. -/
theorem recomputed_lines {headers : List (Bytes × Bytes)} {r : Head}
    (h : ∀ e ∈ headers, words isSpace (received r e.1) = words isSpace e.2) :
    ((headers.map Prod.fst).flatMap fun name =>
        name ++ ascii ":" ++ [32].intercalate (words isSpace (received r name)) ++ ascii "\n") =
      headerLines (headers.map fun e => (e.1, trimAndCollapse e.2)) := by
  induction headers with
  | nil => rfl
  | cons first headers ih =>
    rw [List.map_cons, List.flatMap_cons, ih fun e he => h e (List.mem_cons_of_mem _ he),
      h first List.mem_cons_self, ← trimAndCollapse_eq]
    rfl

end Verified

end S3SigV4

end HolderDaemon
